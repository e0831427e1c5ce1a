import PolymarketIndexer.Backfill.Chunking
import PolymarketIndexer.Library.Parts

/-! # What a successful run has stored

A run that returns without an error has closed a file for each group of each chunk.
Those files hold the requested logs, each once, exactly when the requested logs all
decode and the chunks do not overlap, leave a gap or leave the range. Only wrapping
arithmetic can make a plan that fails the second condition.
-/

namespace PolymarketIndexer.Backfill

open Unordered

/-- The event a log belongs to by its first topic. -/
def known (alloy : Alloy) (log : Log) : Option EventType := (topic0 log).bind (route alloy)

/-- The stored form of a log of an event type. -/
def storedRow (alloy : Alloy) (kind : EventType) (log : Log) : Option Row :=
  (eventRow? alloy kind.name log).map (EventRow.cells kind.name)

def Output.filesOf (output : Output) (E : String) : List ClosedFile :=
  output.closed.filter (fun file => file.path.eventType = E)

/-- The closed files hold the rows of the requested logs, each once, and nothing else. -/
structure Complete (alloy : Alloy) (requested : List Log) (output : Output) : Prop where
  once : (output.closed.map ClosedFile.path).Nodup
  stored : ∀ file ∈ output.closed, output.disk.file file.path = some (.finished file.table)
  typed : ∀ file ∈ output.closed, ∃ kind : EventType, file.path.eventType = kind.name
  rows : ∀ kind : EventType, ∃ rows : List Row,
    (requested.filter (fun log => known alloy log = some kind)).map (storedRow alloy kind) =
      rows.map some ∧
    ((output.filesOf kind.name).flatMap (fun file => file.table.rows)).Perm rows

/-- Each block with a log that decodes is in one planned chunk when it is requested, else in
none. -/
def Covers (alloy : Alloy) (chain : List ChainLog) (addresses : List Address) (range : Chunk)
    (plan : List Chunk) : Prop :=
  ∀ entry ∈ chain, entry.log.inner.address ∈ addresses → decodes alloy entry.log = true →
    (plan.filter (fun chunk => InChunk entry.block chunk)).length =
      if InChunk entry.block range then 1 else 0

section Rows

variable {alloy : Alloy}

theorem eventRow_known {kind : EventType} {log : Log} {row : EventRow}
    (h : eventRow? alloy kind.name log = some row) : known alloy log = some kind := by
  obtain ⟨columns, wasRead⟩ := eventRow_eq_some.mp h
  obtain ⟨decoded, _, _, _, isDecoded, -, -, -, name, -, -⟩ := read_eq_row.mp wasRead
  obtain ⟨kind', routed, name', -⟩ := decodeLog_some isDecoded
  obtain rfl : kind = kind' := EventType.name_injective (name.trans name')
  exact routed

theorem decodes_iff {log : Log} :
    decodes alloy log = true ↔ ∃ decoded, decodeLog alloy log = .ok (some decoded) := by
  unfold decodes
  rcases decodeLog alloy log with e | _ | decoded <;> simp

theorem decodes_known {log : Log} (h : decodes alloy log = true) :
    ∃ kind, known alloy log = some kind := by
  obtain ⟨decoded, isDecoded⟩ := decodes_iff.mp h
  obtain ⟨kind, routed, -, -⟩ := decodeLog_some isDecoded
  exact ⟨kind, routed⟩

/-- A log has a row exactly when it decodes and has its metadata. -/
theorem eventRow_isSome_iff {kind : EventType} {log : Log} (named : known alloy log = some kind) :
    (∃ row, eventRow? alloy kind.name log = some row) ↔
      decodes alloy log = true ∧ lacksMetadata alloy log = false := by
  constructor
  · rintro ⟨row, isRow⟩
    obtain ⟨columns, wasRead⟩ := eventRow_eq_some.mp isRow
    obtain ⟨decoded, _, _, _, isDecoded, block, hash, index, -, -, -⟩ := read_eq_row.mp wasRead
    refine ⟨decodes_iff.mpr ⟨decoded, isDecoded⟩, ?_⟩
    simp [lacksMetadata, block, hash, index]
  · rintro ⟨decodable, complete⟩
    obtain ⟨decoded, isDecoded⟩ := decodes_iff.mp decodable
    obtain ⟨kind', routed, name, -⟩ := decodeLog_some isDecoded
    obtain rfl : kind = kind' := Option.some.inj (named.symm.trans routed)
    rw [← name]
    exact eventRow_of_complete isDecoded complete

/-- The rows asked for are the rows there are, when every log asked about has one. -/
theorem storedRows_iff {kind : EventType} {logs : List Log} {rows : List Row} :
    (logs.filter (fun log => known alloy log = some kind)).map (storedRow alloy kind) =
        rows.map some ↔
      (∀ log ∈ logs, known alloy log = some kind → ∃ row, eventRow? alloy kind.name log = some row) ∧
        rows = (eventRows alloy kind.name logs).map (EventRow.cells kind.name) := by
  induction logs generalizing rows with
  | nil => cases rows <;> simp [eventRows]
  | cons log logs ih =>
      rw [List.filter_cons, eventRows, List.filterMap_cons]
      by_cases named : known alloy log = some kind
      · rw [if_pos (decide_eq_true named), List.map_cons, storedRow]
        cases row : eventRow? alloy kind.name log with
        | none =>
            constructor
            · intro same
              cases rows <;> cases same
            · intro same
              obtain ⟨_, isRow⟩ := same.1 log List.mem_cons_self named
              cases row.symm.trans isRow
        | some r =>
            cases rows with
            | nil => simp
            | cons first rows =>
                simp only [Option.map_some, List.map_cons, List.cons.injEq, Option.some.injEq, ih,
                  List.forall_mem_cons, eventRows]
                constructor
                · rintro ⟨head, all, tail⟩
                  exact ⟨⟨fun _ => ⟨r, row⟩, all⟩, head.symm, tail⟩
                · rintro ⟨⟨-, all⟩, head, tail⟩
                  exact ⟨head.symm, all, tail⟩
      · have none_ : eventRow? alloy kind.name log = none := by
          cases row : eventRow? alloy kind.name log with
          | none => rfl
          | some r => exact absurd (eventRow_known row) named
        rw [if_neg (by simpa using named), none_, ih, List.forall_mem_cons]
        constructor
        · rintro ⟨all, same⟩
          exact ⟨⟨fun named' => absurd named' named, all⟩, same⟩
        · rintro ⟨⟨-, all⟩, same⟩
          exact ⟨all, same⟩

theorem cells_injective (E : String) : Function.Injective (EventRow.cells E) := by
  intro row row' same
  obtain ⟨block, hash, index, values⟩ := row
  obtain ⟨block', hash', index', values'⟩ := row'
  simp only [EventRow.cells, List.cons.injEq, Cell.uint64.injEq, Cell.utf8.injEq, true_and] at same
  obtain ⟨rfl, rfl, rfl, sameValues⟩ := same
  have inj : Function.Injective Cell.utf8 := fun _ _ h => Cell.utf8.inj h
  obtain rfl := List.map_injective_iff.mpr inj sameValues
  rfl

end Rows

section Spread

variable (alloy : Alloy) (chain : List ChainLog) (addresses : List Address) (E : String)

def rowBlock (row : EventRow) : Chunk := (row.blockNumber, row.blockNumber)

/-- The rows of a chunk are the rows of its blocks. -/
theorem rows_spread : Parts.Spread
    (fun chunk => eventRows alloy E (matching chain addresses chunk))
    (fun row chunk => InChunk row.blockNumber chunk)
    (fun row => (eventRows alloy E (matching chain addresses (rowBlock row))).count row) where
  here chunk row here := by
    have inside : ∀ block, InChunk block (rowBlock row) → InChunk block chunk := by
      intro block own
      obtain rfl : block = row.blockNumber := UInt64.le_antisymm own.2 own.1
      exact here
    rw [← eventRows_part inside, List.count_filter]
    exact decide_eq_true ⟨UInt64.le_refl _, UInt64.le_refl _⟩
  elsewhere chunk row out := by
    apply List.count_eq_zero.mpr
    intro member
    obtain ⟨log, inChunk, isRow⟩ := List.mem_filterMap.mp member
    obtain ⟨entry, inChain, rfl⟩ := List.mem_map.mp inChunk
    have matches_ := of_decide_eq_true (List.mem_filter.mp inChain).2
    rw [eventRow_block isRow] at out
    exact out matches_.2

variable {alloy chain addresses E}

theorem mem_matching {range : Chunk} {log : Log} :
    log ∈ matching chain addresses range ↔
      ∃ entry ∈ chain, log = entry.log ∧ entry.log.inner.address ∈ addresses ∧
        InChunk entry.block range := by
  unfold matching
  rw [List.mem_map]
  constructor
  · rintro ⟨entry, member, rfl⟩
    obtain ⟨inChain, matches_⟩ := List.mem_filter.mp member
    exact ⟨entry, inChain, rfl, of_decide_eq_true matches_⟩
  · rintro ⟨entry, inChain, rfl, matches_⟩
    exact ⟨entry, List.mem_filter.mpr ⟨inChain, decide_eq_true matches_⟩, rfl⟩

/-- A pooled row is the row of a watched log of the chain that decodes. -/
theorem pooled_iff {row : EventRow} :
    0 < (eventRows alloy E (matching chain addresses (rowBlock row))).count row ↔
      ∃ entry ∈ chain, entry.log.inner.address ∈ addresses ∧
        eventRow? alloy E entry.log = some row := by
  rw [List.count_pos_iff]
  constructor
  · intro member
    obtain ⟨log, inBlock, isRow⟩ := List.mem_filterMap.mp member
    obtain ⟨entry, inChain, rfl, watched_, -⟩ := mem_matching.mp inBlock
    exact ⟨entry, inChain, watched_, isRow⟩
  · rintro ⟨entry, inChain, watched_, isRow⟩
    apply List.mem_filterMap.mpr
    refine ⟨entry.log, mem_matching.mpr ⟨entry, inChain, rfl, watched_, ?_⟩, isRow⟩
    rw [rowBlock, eventRow_block isRow]
    exact ⟨UInt64.le_refl _, UInt64.le_refl _⟩

end Spread

section Files

variable {env : Env} {plan : List Chunk} {disk : Disk} {schedule : List Input} {final : State}

def fetchedLogs (env : Env) (chunk : Chunk) : List Log :=
  match env.getLogs chunk with
  | .error _ => []
  | .ok logs => logs

def Job.file (job : Job) : ClosedFile := { path := job.path, table := job.table }

/-- Without an error every chunk was fetched, had its metadata and had its files written. -/
theorem ok_chunk (h : Completes env plan disk schedule final (.ok ())) {chunk : Chunk}
    (planned : chunk ∈ plan) :
    env.getLogs chunk = .ok (fetchedLogs env chunk) ∧
      (∀ job ∈ chunkJobs env chunk, job.outcome = .complete) ∧
      ∀ log ∈ fetchedLogs env chunk, lacksMetadata env.alloy log = false := by
  have sound : ¬(fetchFails env chunk = true ∨ failedWrites env chunk ≠ [] ∨
      missesMetadata env chunk = true) := by
    intro trouble
    obtain ⟨_, isError⟩ := (completed_error_iff h).mpr ⟨chunk, planned, trouble⟩
    cases isError
  simp only [not_or, not_not] at sound
  obtain ⟨fetched, writes, metadata⟩ := sound
  unfold fetchFails at fetched
  unfold failedWrites at writes
  unfold missesMetadata at metadata
  unfold fetchedLogs chunkJobs
  cases answer : env.getLogs chunk with
  | error e => simp [answer] at fetched
  | ok logs =>
      simp only [answer] at writes metadata
      refine ⟨rfl, ?_, ?_⟩
      · intro job member
        obtain ⟨entry, inGroup, rfl⟩ := List.mem_map.mp member
        have inKeys : entry.1 ∈ (group env.alloy logs).byEvent.keys :=
          List.mem_map.mpr ⟨entry, inGroup, rfl⟩
        have whole : (env.fileIo chunk entry.1).outcome = .complete := by
          simpa using List.filter_eq_nil_iff.mp writes entry.1 inKeys
        exact whole
      · intro log member
        by_contra lacks
        apply metadata
        exact List.any_eq_true.mpr ⟨log, member, by simpa using lacks⟩

/-- Without an error every file was closed. -/
theorem ok_closed (h : Completes env plan disk schedule final (.ok ())) :
    final.shared.output.closed.Perm (plan.flatMap (fun chunk =>
      (chunkJobs env chunk).map Job.file)) := by
  obtain ⟨⟨ran, perm, -, closed⟩, -, -⟩ := completed_account h
  have all : ran.filterMap Job.closed? = ran.map Job.file := by
    rw [← List.filterMap_eq_map]
    apply List.filterMap_congr
    intro job inRan
    obtain ⟨chunk, planned, inChunk⟩ := List.mem_flatMap.mp (perm.mem_iff.mp inRan)
    have complete := (ok_chunk h planned).2.1 job inChunk
    simp only [Job.closed?, complete]
    rfl
  rw [closed, all, ← List.map_flatMap]
  exact perm.map Job.file

/-- The file a chunk writes for an event type holds the chunk's rows of it. -/
theorem chunk_file (chunk : Chunk) (E : String) :
    ((((chunkJobs env chunk).map Job.file).filter (fun file => file.path.eventType = E)).flatMap
      (fun file => file.table.rows)).Perm
        ((eventRows env.alloy E (fetchedLogs env chunk)).map (EventRow.cells E)) := by
  unfold chunkJobs fetchedLogs
  cases env.getLogs chunk with
  | error e => exact .rfl
  | ok logs =>
      simp only [List.map_map, List.filter_map]
      have own := iterate_filter (.asStored _) (group env.alloy logs).byEvent E
      simp only [iterate, Order.asStored, id] at own
      have named : ((fun file : ClosedFile => decide (file.path.eventType = E)) ∘
          (Job.file ∘ jobOf env chunk)) = fun entry : (_ : String) × Group => decide (entry.1 = E) :=
        rfl
      rw [named, own]
      rcases @group_lookup env.alloy logs E with ⟨none_, empty⟩ | ⟨kind, -, found, -⟩
      · rw [none_, empty]
        exact .rfl
      · rw [found]
        simp only [Option.map_some, Option.toList_some, List.map_cons, List.map_nil,
          List.flatMap_cons, List.flatMap_nil, List.append_nil]
        exact (List.perm_insertionSort rowLe _).map _

theorem ok_rows (h : Completes env plan disk schedule final (.ok ())) (E : String) :
    ((final.shared.output.filesOf E).flatMap (fun file => file.table.rows)).Perm
      ((plan.flatMap (fun chunk => eventRows env.alloy E (fetchedLogs env chunk))).map
        (EventRow.cells E)) := by
  have closed := ((ok_closed h).filter (fun file => file.path.eventType = E)).flatMap_right
    (fun file => file.table.rows)
  apply closed.trans
  rw [List.filter_flatMap, List.flatMap_assoc, List.map_flatMap]
  exact List.Perm.flatMap_left _ (fun chunk _ => chunk_file chunk E)

theorem ok_typed (h : Completes env plan disk schedule final (.ok ())) {file : ClosedFile}
    (closed : file ∈ final.shared.output.closed) :
    ∃ kind : EventType, file.path.eventType = kind.name := by
  obtain ⟨chunk, -, inChunk⟩ := List.mem_flatMap.mp ((ok_closed h).mem_iff.mp closed)
  obtain ⟨job, isJob, rfl⟩ := List.mem_map.mp inChunk
  obtain ⟨logs, E, g, -, found, rfl⟩ := mem_chunkJobs.mp isJob
  obtain ⟨-, -, kind, name, -⟩ := group_entry found
  exact ⟨kind, name⟩

end Files

section Result

variable {world : World} {config : BackfillConfig} {disk : Disk} {addresses : List Address}
  {plan : List Chunk} {final : State} {chain : List ChainLog}

/-- The rows of a run's files and the rows of its chunks' logs. -/
theorem works_rows (works : Works world config disk addresses plan final (.ok ()))
    (provider : ∀ chunk logs, world.getLogs addresses chunk = .ok logs →
      logs.Perm (matching chain addresses chunk)) (E : String) :
    ((final.shared.output.filesOf E).flatMap (fun file => file.table.rows)).Perm
      ((plan.flatMap (fun chunk => eventRows world.alloy E (matching chain addresses chunk))).map
        (EventRow.cells E)) := by
  obtain ⟨schedule, completes⟩ := works.completed
  apply (ok_rows completes E).trans
  apply List.Perm.map
  apply List.Perm.flatMap_left
  intro chunk planned
  exact (provider chunk _ (ok_chunk completes planned).1).filterMap _

theorem works_metadata (works : Works world config disk addresses plan final (.ok ()))
    (provider : ∀ chunk logs, world.getLogs addresses chunk = .ok logs →
      logs.Perm (matching chain addresses chunk)) {entry : ChainLog} (inChain : entry ∈ chain)
    (watched_ : entry.log.inner.address ∈ addresses) {chunk : Chunk} (planned : chunk ∈ plan)
    (inChunk : InChunk entry.block chunk) : lacksMetadata world.alloy entry.log = false := by
  obtain ⟨schedule, completes⟩ := works.completed
  obtain ⟨fetched, -, metadata⟩ := ok_chunk completes planned
  apply metadata
  exact (provider chunk _ fetched).mem_iff.mpr
    (mem_matching.mpr ⟨entry, inChain, rfl, watched_, inChunk⟩)

/-- A checked plan covers the chain. -/
theorem covers_checked (works : Works world config disk addresses plan final (.ok ()))
    (checked : world.overflow = .checked) :
    Covers world.alloy chain addresses (config.startBlock, config.endBlock) plan := by
  obtain ⟨ordered, sized, -⟩ := prepare_ok works.prepared
  have planned := works.planned
  rw [checked] at planned
  intro entry _ _ _
  exact chunkRanges_count sized (UInt64.le_iff_toNat_le.mp ordered) planned entry.block

theorem complete_decodes {output : Output}
    (complete : Complete world.alloy
      (matching chain addresses (config.startBlock, config.endBlock)) output) {log : Log}
    (requested : log ∈ matching chain addresses (config.startBlock, config.endBlock))
    (named : (known world.alloy log).isSome) :
    decodes world.alloy log = true ∧ lacksMetadata world.alloy log = false := by
  obtain ⟨kind, named⟩ := Option.isSome_iff_exists.mp named
  obtain ⟨rows, same, -⟩ := complete.rows kind
  obtain ⟨all, -⟩ := storedRows_iff.mp same
  exact (eventRow_isSome_iff named).mp (all log requested named)

/-- Complete files come from a plan that covers the chain. -/
theorem complete_covers (works : Works world config disk addresses plan final (.ok ()))
    (provider : ∀ chunk logs, world.getLogs addresses chunk = .ok logs →
      logs.Perm (matching chain addresses chunk))
    (complete : Complete world.alloy
      (matching chain addresses (config.startBlock, config.endBlock)) final.shared.output) :
    Covers world.alloy chain addresses (config.startBlock, config.endBlock) plan := by
  intro entry inChain watched_ decodable
  obtain ⟨kind, named⟩ := decodes_known decodable
  cases lacks : lacksMetadata world.alloy entry.log with
  | false =>
      obtain ⟨rows, same, perm⟩ := complete.rows kind
      obtain ⟨-, rfl⟩ := storedRows_iff.mp same
      have spread := (List.map_perm_map_iff (cells_injective kind.name)).mp
        ((works_rows works provider kind.name).symm.trans perm)
      obtain ⟨row, isRow⟩ := (eventRow_isSome_iff named).mpr ⟨decodable, lacks⟩
      have once := (Parts.parts_perm_iff (rows_spread world.alloy chain addresses kind.name)).mp
        spread row (pooled_iff.mpr ⟨entry, inChain, watched_, isRow⟩)
      rw [eventRow_block isRow] at once
      exact once
  | true =>
      have outside : ¬InChunk entry.block (config.startBlock, config.endBlock) := by
        intro inRange
        have requested := mem_matching.mpr ⟨entry, inChain, rfl, watched_, inRange⟩
        have full := complete_decodes complete requested (by rw [named]; rfl)
        rw [full.2] at lacks
        cases lacks
      have nowhere : plan.filter (fun chunk => InChunk entry.block chunk) = [] := by
        apply List.filter_eq_nil_iff.mpr
        intro chunk planned inChunk
        have full := works_metadata works provider inChain watched_ planned
          (of_decide_eq_true inChunk)
        rw [full] at lacks
        cases lacks
      rw [nowhere, if_neg outside]
      rfl

/-- When the plan covers the chain no path is used by two files. -/
theorem covered_once (works : Works world config disk addresses plan final (.ok ()))
    (provider : ∀ chunk logs, world.getLogs addresses chunk = .ok logs →
      logs.Perm (matching chain addresses chunk))
    (covers : Covers world.alloy chain addresses (config.startBlock, config.endBlock) plan) :
    (final.shared.output.closed.map ClosedFile.path).Nodup := by
  obtain ⟨schedule, completes⟩ := works.completed
  have apart : ∀ E : String, plan.Pairwise (fun chunk chunk' => chunk = chunk' →
      eventRows world.alloy E (matching chain addresses chunk) = []) := by
    intro E
    apply Parts.parts_apart (rows_spread world.alloy chain addresses E)
    intro row pooled
    obtain ⟨entry, inChain, watched_, isRow⟩ := pooled_iff.mp pooled
    obtain ⟨columns, wasRead⟩ := eventRow_eq_some.mp isRow
    obtain ⟨decoded, _, _, _, isDecoded, -⟩ := read_eq_row.mp wasRead
    have count := covers entry inChain watched_ (decodes_iff.mpr ⟨decoded, isDecoded⟩)
    rw [eventRow_block isRow, count]
    split <;> omega
  rw [((ok_closed completes).map ClosedFile.path).nodup_iff, List.map_flatMap, List.nodup_flatMap]
  constructor
  · intro chunk _
    rw [List.map_map]
    unfold chunkJobs
    cases (world.env config addresses).getLogs chunk with
    | error e => exact List.nodup_nil
    | ok logs =>
        rw [List.map_map]
        have keys := (group world.alloy logs).byEvent.keys_nodup
        have injective : Function.Injective (fun E => chunkPath E chunk) :=
          fun _ _ same => (chunkPath_inj same).1
        have paths := keys.map injective
        rw [AList.keys, List.keys, List.map_map] at paths
        exact paths
  · apply List.pairwise_iff_getElem.mpr
    intro i j hi hj before path inFirst inSecond
    obtain ⟨file, isFile, rfl⟩ := List.mem_map.mp inFirst
    obtain ⟨file', isFile', samePath⟩ := List.mem_map.mp inSecond
    obtain ⟨job, isJob, rfl⟩ := List.mem_map.mp isFile
    obtain ⟨job', isJob', rfl⟩ := List.mem_map.mp isFile'
    obtain ⟨logs, E, g, fetched, found, rfl⟩ := mem_chunkJobs.mp isJob
    obtain ⟨logs', E', g', -, -, rfl⟩ := mem_chunkJobs.mp isJob'
    obtain ⟨-, sameChunk⟩ := chunkPath_inj samePath
    have empty := List.pairwise_iff_getElem.mp (apart E) i j hi hj before sameChunk.symm
    obtain ⟨rows, filled, -⟩ := group_entry found
    have perm := (provider plan[i] logs fetched).filterMap (eventRow? world.alloy E)
    apply filled
    rw [rows]
    apply List.perm_nil.mp
    rw [← empty]
    exact perm

/-- A covering plan and logs that decode make the files complete. -/
theorem covers_complete (works : Works world config disk addresses plan final (.ok ()))
    (provider : ∀ chunk logs, world.getLogs addresses chunk = .ok logs →
      logs.Perm (matching chain addresses chunk))
    (decodable : ∀ log ∈ matching chain addresses (config.startBlock, config.endBlock),
      (known world.alloy log).isSome → decodes world.alloy log = true)
    (covers : Covers world.alloy chain addresses (config.startBlock, config.endBlock) plan) :
    Complete world.alloy (matching chain addresses (config.startBlock, config.endBlock))
      final.shared.output := by
  obtain ⟨schedule, completes⟩ := works.completed
  refine ⟨covered_once works provider covers, fun file => closed_on_disk completes,
    fun file => ok_typed completes, ?_⟩
  intro kind
  refine ⟨_, storedRows_iff.mpr ⟨?_, rfl⟩, ?_⟩
  · intro log requested named
    have decoded := decodable log requested (by rw [named]; rfl)
    obtain ⟨entry, inChain, rfl, watched_, inRange⟩ := mem_matching.mp requested
    have once := covers entry inChain watched_ decoded
    rw [if_pos inRange] at once
    obtain ⟨chunk, member⟩ := List.exists_mem_of_length_pos
      (Nat.lt_of_lt_of_eq Nat.one_pos once.symm)
    obtain ⟨planned, inChunk⟩ := List.mem_filter.mp member
    have metadata := works_metadata works provider inChain watched_ planned
      (of_decide_eq_true inChunk)
    exact (eventRow_isSome_iff named).mpr ⟨decoded, metadata⟩
  · apply (works_rows works provider kind.name).trans
    apply List.Perm.map
    apply (Parts.parts_perm_iff (rows_spread world.alloy chain addresses kind.name)).mpr
    intro row pooled
    obtain ⟨entry, inChain, watched_, isRow⟩ := pooled_iff.mp pooled
    obtain ⟨columns, wasRead⟩ := eventRow_eq_some.mp isRow
    obtain ⟨decoded, _, _, _, isDecoded, -⟩ := read_eq_row.mp wasRead
    rw [eventRow_block isRow]
    exact covers entry inChain watched_ (decodes_iff.mpr ⟨decoded, isDecoded⟩)

/-- A run that returns without an error has stored the requested logs, each once and nothing
else, exactly when every requested log of a known event decodes and, where arithmetic wraps,
the plan covers the chain. -/
theorem complete_iff (works : Works world config disk addresses plan final (.ok ()))
    (provider : ∀ chunk logs, world.getLogs addresses chunk = .ok logs →
      logs.Perm (matching chain addresses chunk)) :
    Complete world.alloy (matching chain addresses (config.startBlock, config.endBlock))
        final.shared.output ↔
      (∀ log ∈ matching chain addresses (config.startBlock, config.endBlock),
        (known world.alloy log).isSome → decodes world.alloy log = true) ∧
      (world.overflow = .wrapping →
        Covers world.alloy chain addresses (config.startBlock, config.endBlock) plan) := by
  constructor
  · intro complete
    exact ⟨fun log requested named => (complete_decodes complete requested named).1,
      fun _ => complete_covers works provider complete⟩
  · rintro ⟨decodable, covers⟩
    apply covers_complete works provider decodable
    cases build : world.overflow with
    | checked => exact covers_checked works build
    | wrapping => exact covers build

end Result

section Example

/-- A cancelled order without the order's hash among its topics. -/
def truncated : List ChainLog := [cancelledEntry 12 0 [], cancelledEntry 17 0 [⟨7⟩]]

theorem works_ok {world : World} {config : BackfillConfig} {addresses : List Address}
    {plan : List Chunk} (prepared : prepare world.http world.alloy config = .ok addresses)
    (planned : ChunkRanges world.overflow config.startBlock config.endBlock
      config.chunkSizeByBlockNumber plan) (disk : Disk)
    (sound : ∀ chunk ∈ plan, fetchFails (world.env config addresses) chunk = false ∧
      failedWrites (world.env config addresses) chunk = [] ∧
      missesMetadata (world.env config addresses) chunk = false) :
    ∃ final, Works world config disk addresses plan final (.ok ()) := by
  obtain ⟨final, result, works⟩ := works_exists prepared planned disk
  obtain ⟨schedule, completes⟩ := works.completed
  cases result with
  | ok value => exact ⟨final, works⟩
  | error e =>
      obtain ⟨chunk, member, trouble⟩ := (completed_error_iff completes).mp ⟨e, rfl⟩
      obtain ⟨fetched, written, metadata⟩ := sound chunk member
      simp [fetched, written, metadata] at trouble

theorem complete_iff_unsorted : ∃ final,
    Works (quiet unsorted) twoChunks Disk.empty watched [(10, 14), (15, 19)] final (.ok ()) ∧
      (Complete Reference.alloy (matching unsorted watched (10, 19)) final.shared.output ↔
        (∀ log ∈ matching unsorted watched (10, 19),
          (known Reference.alloy log).isSome → decodes Reference.alloy log = true) ∧
        (Overflow.checked = .wrapping →
          Covers Reference.alloy unsorted watched (10, 19) [(10, 14), (15, 19)])) := by
  have run : ∃ final, Works (quiet unsorted) twoChunks Disk.empty watched [(10, 14), (15, 19)]
      final (.ok ()) :=
    @works_ok (quiet unsorted) _ _ _ twoChunks_prepared (chunkRanges_of_run 3 rfl) Disk.empty
      (List.forall_mem_cons.mpr ⟨⟨rfl, rfl, rfl⟩, List.forall_mem_singleton.mpr ⟨rfl, rfl, rfl⟩⟩)
  obtain ⟨final, works⟩ := run
  refine ⟨final, works, complete_iff works ?_⟩
  intro chunk logs answer
  obtain rfl := Except.ok.inj answer
  exact .rfl

/-- The run over a range with a truncated log succeeds and has not stored it. -/
theorem truncated_incomplete : ∃ final,
    Works (quiet truncated) twoChunks Disk.empty watched [(10, 14), (15, 19)] final (.ok ()) ∧
      ¬Complete Reference.alloy (matching truncated watched (10, 19)) final.shared.output := by
  have run : ∃ final, Works (quiet truncated) twoChunks Disk.empty watched [(10, 14), (15, 19)]
      final (.ok ()) :=
    @works_ok (quiet truncated) _ _ _ twoChunks_prepared (chunkRanges_of_run 3 rfl) Disk.empty
      (List.forall_mem_cons.mpr ⟨⟨rfl, rfl, rfl⟩, List.forall_mem_singleton.mpr ⟨rfl, rfl, rfl⟩⟩)
  obtain ⟨final, works⟩ := run
  refine ⟨final, works, ?_⟩
  intro complete
  have requested : cancelledLog 12 0 [] ∈ matching truncated watched (10, 19) :=
    mem_matching.mpr ⟨cancelledEntry 12 0 [], List.mem_cons_self, rfl, by decide, by decide⟩
  have full := @complete_decodes (quiet truncated) twoChunks _ _ _ complete _ requested rfl
  exact absurd full.1 (by decide)

end Example

end PolymarketIndexer.Backfill
