import PolymarketIndexer.Backfill.Confluence
import PolymarketIndexer.Library.LastWins
import PolymarketIndexer.Library.StableSort

/-! # The output does not depend on the chunk size

The chain is a list of logs, each in its block. A provider answers a chunk with the
matching logs of its blocks. Reading an event type's files chunk by chunk then gives
the stable sort of all its rows in the requested range, whatever the chunks were.
-/

namespace PolymarketIndexer.Backfill

open Unordered Tiling

/-- A log in its block. A block number it reports is that block. -/
structure ChainLog where
  block : UInt64
  log : Log
  reported : ∀ b, log.blockNumber = some b → b = block

def Matches (addresses : List Address) (chunk : Chunk) (entry : ChainLog) : Prop :=
  entry.log.inner.address ∈ addresses ∧ InChunk entry.block chunk

instance (addresses : List Address) (chunk : Chunk) : DecidablePred (Matches addresses chunk) :=
  fun _ => inferInstanceAs (Decidable (_ ∧ _))

/-- The logs of the watched addresses in a block range, in chain order. -/
def matching (chain : List ChainLog) (addresses : List Address) (chunk : Chunk) : List Log :=
  (chain.filter (fun entry => Matches addresses chunk entry)).map ChainLog.log

/-- The file the run closed at a path. -/
def Output.written (output : Output) (path : Path) : Option Table :=
  (LastWins.held ClosedFile.path output.closed path).map ClosedFile.table

/-- An event type's rows, read file by file in the order of the chunks. -/
def chunkRows (output : Output) (plan : List Chunk) (E : String) : List Row :=
  plan.flatMap (fun chunk => ((output.written (chunkPath E chunk)).map Table.rows).getD [])

/-- An event type's rows in a block range, sorted once. -/
def rangeRows (alloy : Alloy) (chain : List ChainLog) (addresses : List Address) (range : Chunk)
    (E : String) : List Row :=
  (sortRows (eventRows alloy E (matching chain addresses range))).map (EventRow.cells E)

section Files

variable {env : Env} {plan : List Chunk} {disk : Disk} {schedule : List Input} {final : State}
  {result : Except String Unit}

/-- The table a chunk's task writes for an event type, when all goes well. -/
def chunkTable (env : Env) (chunk : Chunk) (E : String) : Option Table :=
  match env.getLogs chunk with
  | .error _ => none
  | .ok logs =>
      if (env.fileIo chunk E).outcome = .complete then
        ((group env.alloy logs).byEvent.lookup E).map (fun g => fileTable E g.1 (sortRows g.2))
      else none

theorem closed_of_job {jobs : List Job} {file : ClosedFile} :
    file ∈ jobs.filterMap Job.closed? ↔
      ∃ job ∈ jobs, job.outcome = .complete ∧ file = { path := job.path, table := job.table } := by
  rw [List.mem_filterMap]
  constructor
  · rintro ⟨job, member, closed⟩
    refine ⟨job, member, ?_⟩
    unfold Job.closed? at closed
    split at closed
    · rename_i complete
      exact ⟨complete, (Option.some.inj closed).symm⟩
    · cases closed
  · rintro ⟨job, member, complete, rfl⟩
    exact ⟨job, member, by rw [Job.closed?, complete]⟩

/-- A completed run closed, for each chunk and event type, the file of that chunk. -/
theorem written_eq (h : Completes env plan disk schedule final result) {chunk : Chunk}
    (planned : chunk ∈ plan) (E : String) :
    final.shared.output.written (chunkPath E chunk) = chunkTable env chunk E := by
  obtain ⟨⟨ran, perm, -, closed⟩, -, -⟩ := completed_account h
  have ofPath : ∀ job ∈ ran, job.path = chunkPath E chunk → job ∈ chunkJobs env chunk := by
    intro job member path
    obtain ⟨chunk', -, inChunk⟩ := List.mem_flatMap.mp (perm.mem_iff.mp member)
    obtain ⟨logs, E', g, -, -, rfl⟩ := mem_chunkJobs.mp inChunk
    obtain ⟨rfl, rfl⟩ := chunkPath_inj path
    exact inChunk
  unfold Output.written
  rw [closed]
  cases table : chunkTable env chunk E with
  | none =>
      rw [LastWins.held_none]
      · rfl
      · intro file member path
        obtain ⟨job, inRan, complete, rfl⟩ := closed_of_job.mp member
        obtain ⟨logs, E', g, fetched, found, rfl⟩ := mem_chunkJobs.mp (ofPath job inRan path)
        obtain ⟨rfl, -⟩ := chunkPath_inj path
        have complete : (env.fileIo chunk E').outcome = .complete := complete
        simp [chunkTable, fetched, complete, found] at table
  | some t =>
      unfold chunkTable at table
      split at table
      · cases table
      · rename_i logs fetched
        split at table
        · rename_i complete
          obtain ⟨g, found, rfl⟩ := Option.map_eq_some_iff.mp table
          have inJobs : jobOf env chunk ⟨E, g⟩ ∈ chunkJobs env chunk :=
            mem_chunkJobs.mpr ⟨logs, E, g, fetched, found, rfl⟩
          have inRan : jobOf env chunk ⟨E, g⟩ ∈ ran :=
            perm.mem_iff.mpr (List.mem_flatMap.mpr ⟨chunk, planned, inJobs⟩)
          have member : (⟨chunkPath E chunk, fileTable E g.1 (sortRows g.2)⟩ : ClosedFile) ∈
              ran.filterMap Job.closed? := closed_of_job.mpr ⟨_, inRan, complete, rfl⟩
          have unique : ∀ file ∈ ran.filterMap Job.closed?, file.path = chunkPath E chunk →
              file = ⟨chunkPath E chunk, fileTable E g.1 (sortRows g.2)⟩ := by
            intro file other path
            obtain ⟨job, inRan', -, rfl⟩ := closed_of_job.mp other
            rw [job_of_path (perm.mem_iff.mp inRan') (perm.mem_iff.mp inRan) path]
            rfl
          have held : LastWins.held ClosedFile.path (ran.filterMap Job.closed?)
              (chunkPath E chunk) = some ⟨chunkPath E chunk, fileTable E g.1 (sortRows g.2)⟩ :=
            LastWins.held_of_unique member unique
          rw [held]
          rfl
        · cases table

/-- Jobs that all are one job leave its path as that job does. -/
theorem jobs_same {jobs : List Job} {job : Job} (same : ∀ j ∈ jobs, j = job) (member : job ∈ jobs)
    (complete : job.outcome = .complete) (files : Files) :
    jobs.foldl Job.apply files job.path = some (.finished job.table) := by
  have stays : ∀ (js : List Job) (f : Files), (∀ j ∈ js, j = job) →
      f job.path = some (.finished job.table) →
      js.foldl Job.apply f job.path = some (.finished job.table) := by
    intro js
    induction js with
    | nil => exact fun _ _ start => start
    | cons j js ih =>
        intro f same _
        obtain rfl := same j List.mem_cons_self
        apply ih _ (fun j' member => same j' (List.mem_cons_of_mem _ member))
        simp [Job.apply, complete]
  cases jobs with
  | nil => cases member
  | cons j js =>
      obtain rfl := same j List.mem_cons_self
      apply stays js _ (fun j' member => same j' (List.mem_cons_of_mem _ member))
      simp [Job.apply, complete]

/-- A complete job that no other shares its path with is on the disk in the end. -/
theorem complete_on_disk {jobs : List Job} {job : Job} (member : job ∈ jobs)
    (complete : job.outcome = .complete)
    (only : ∀ other ∈ jobs, other.path = job.path → other = job) (files : Files) :
    jobs.foldl Job.apply files job.path = some (.finished job.table) := by
  rw [jobs_at]
  apply jobs_same _ (List.mem_filter.mpr ⟨member, decide_eq_true rfl⟩) complete
  intro other inFilter
  obtain ⟨inJobs, path⟩ := List.mem_filter.mp inFilter
  exact only other inJobs (of_decide_eq_true path)

theorem closed_on_disk (h : Completes env plan disk schedule final result) {file : ClosedFile}
    (closed : file ∈ final.shared.output.closed) :
    final.shared.output.disk.file file.path = some (.finished file.table) := by
  obtain ⟨⟨ran, perm, files, history⟩, -, -⟩ := completed_account h
  rw [history] at closed
  obtain ⟨job, inRan, complete, rfl⟩ := closed_of_job.mp closed
  rw [files]
  apply complete_on_disk inRan complete
  intro other inRan' path
  exact job_of_path (perm.mem_iff.mp inRan') (perm.mem_iff.mp inRan) path

/-- A file the run closed is on the disk as it was closed. -/
theorem written_on_disk (h : Completes env plan disk schedule final result) {path : Path}
    {table : Table} (written : final.shared.output.written path = some table) :
    final.shared.output.disk.file path = some (.finished table) := by
  obtain ⟨closedFile, held, rfl⟩ := Option.map_eq_some_iff.mp written
  obtain ⟨inClosed, atPath⟩ := List.mem_filter.mp (List.mem_of_getLast? held)
  have atPath : closedFile.path = path := of_decide_eq_true atPath
  rw [← atPath, closed_on_disk h inClosed]

/-- Without fetch and write failures the files of an event type hold, chunk by chunk, its
sorted rows. -/
theorem chunkRows_eq (h : Completes env plan disk schedule final result) {logs : Chunk → List Log}
    (fetched : ∀ chunk ∈ plan, env.getLogs chunk = .ok (logs chunk))
    (writes : ∀ chunk ∈ plan, ∀ E, (env.fileIo chunk E).outcome = .complete) (E : String) :
    chunkRows final.shared.output plan E =
      plan.flatMap (fun chunk =>
        (sortRows (eventRows env.alloy E (logs chunk))).map (EventRow.cells E)) := by
  apply List.flatMap_congr
  intro chunk planned
  rw [written_eq h planned, chunkTable, fetched chunk planned]
  simp only [writes chunk planned E, if_true]
  rcases @group_lookup env.alloy (logs chunk) E with ⟨none_, empty⟩ | ⟨kind, -, found, -⟩
  · rw [none_, empty]
    rfl
  · rw [found]
    rfl

end Files

section Sorting

theorem eventRow_block {alloy : Alloy} {E : String} {entry : ChainLog} {row : EventRow}
    (h : eventRow? alloy E entry.log = some row) : row.blockNumber = entry.block := by
  obtain ⟨columns, wasRead⟩ := eventRow_eq_some.mp h
  obtain ⟨_, blockNumber, _, _, -, block, -, -, -, -, rfl⟩ := read_eq_row.mp wasRead
  exact entry.reported blockNumber block

/-- The rows of a part of a range are the range's rows whose block is in the part. -/
theorem eventRows_part {alloy : Alloy} {chain : List ChainLog} {addresses : List Address}
    {range chunk : Chunk} (inside : ∀ block, InChunk block chunk → InChunk block range)
    (E : String) :
    (eventRows alloy E (matching chain addresses range)).filter
        (fun row => InChunk row.blockNumber chunk) =
      eventRows alloy E (matching chain addresses chunk) := by
  unfold eventRows matching
  induction chain with
  | nil => rfl
  | cons entry chain ih =>
      by_cases inChunk : Matches addresses chunk entry
      · have inRange : Matches addresses range entry := ⟨inChunk.1, inside _ inChunk.2⟩
        rw [List.filter_cons, if_pos (decide_eq_true inRange), List.filter_cons,
          if_pos (decide_eq_true inChunk), List.map_cons, List.map_cons, List.filterMap_cons,
          List.filterMap_cons]
        cases row : eventRow? alloy E entry.log with
        | none => exact ih
        | some r =>
            simp only
            rw [List.filter_cons, if_pos (decide_eq_true (by
              rw [eventRow_block row]
              exact inChunk.2)), ih]
      · have skipped : (entry :: chain).filter (fun e => Matches addresses chunk e) =
            chain.filter (fun e => Matches addresses chunk e) := by
          rw [List.filter_cons, if_neg (by simpa using inChunk)]
        rw [skipped]
        by_cases inRange : Matches addresses range entry
        · rw [List.filter_cons, if_pos (decide_eq_true inRange), List.map_cons,
            List.filterMap_cons]
          cases row : eventRow? alloy E entry.log with
          | none => exact ih
          | some r =>
              simp only
              rw [List.filter_cons, if_neg, ih]
              intro here
              apply inChunk
              have here := of_decide_eq_true here
              rw [eventRow_block row] at here
              exact ⟨inRange.1, here⟩
        · rw [List.filter_cons, if_neg (by simpa using inRange)]
          exact ih

variable {start endBlock size : UInt64} {plan : List Chunk}

theorem plan_inside (sized : 1 ≤ size.toNat) (ordered : start.toNat ≤ endBlock.toNat)
    (planned : ChunkRanges .checked start endBlock size plan) {chunk : Chunk}
    (member : chunk ∈ plan) (block : UInt64) (h : InChunk block chunk) :
    InChunk block (start, endBlock) := by
  have bounds_ := tiles_bounds (chunkRanges_tiles sized ordered planned) (bounds chunk)
    (List.mem_map.mpr ⟨chunk, member, rfl⟩)
  obtain ⟨low, high⟩ := h
  simp only [bounds] at bounds_
  simp only [UInt64.le_iff_toNat_le] at low high
  simp only [InChunk, UInt64.le_iff_toNat_le]
  omega

theorem plan_layered (sized : 1 ≤ size.toNat) (ordered : start.toNat ≤ endBlock.toNat)
    (planned : ChunkRanges .checked start endBlock size plan) :
    StableSort.Layered rowLe (fun chunk row => decide (InChunk row.blockNumber chunk)) plan := by
  have ascending := List.pairwise_map.mp (tiles_ascending (chunkRanges_tiles sized ordered planned))
  apply ascending.imp
  intro chunk chunk' before a b ina inb
  have before : chunk.2.toNat < chunk'.1.toNat := before
  have upper := UInt64.le_iff_toNat_le.mp (of_decide_eq_true ina).2
  have lower := UInt64.le_iff_toNat_le.mp (of_decide_eq_true inb).1
  have less : a.blockNumber < b.blockNumber := UInt64.lt_iff_toNat_lt.mpr (by omega)
  refine ⟨.inl less, ?_⟩
  rintro (greater | ⟨same, -⟩)
  · have := UInt64.lt_iff_toNat_lt.mp greater
    omega
  · rw [same] at less
    exact UInt64.lt_irrefl _ less

/-- The chunks' sorted rows, one after another, are the rows of the range sorted once. -/
theorem sorted_parts (sized : 1 ≤ size.toNat) (ordered : start.toNat ≤ endBlock.toNat)
    (planned : ChunkRanges .checked start endBlock size plan) {rows : List EventRow}
    (inside : ∀ row ∈ rows, InChunk row.blockNumber (start, endBlock)) :
    plan.flatMap (fun chunk =>
        sortRows (rows.filter (fun row => InChunk row.blockNumber chunk))) = sortRows rows := by
  have covered : ∀ row ∈ rows, ∃ chunk ∈ plan, decide (InChunk row.blockNumber chunk) = true := by
    intro row member
    obtain ⟨low, high⟩ := inside row member
    simp only [UInt64.le_iff_toNat_le] at low high
    obtain ⟨range, isBounds, inBounds⟩ := tiles_cover (chunkRanges_tiles sized ordered planned) low
      (Nat.lt_succ_of_le high)
    obtain ⟨chunk, inPlan, rfl⟩ := List.mem_map.mp isBounds
    exact ⟨chunk, inPlan, decide_eq_true (inChunk_iff.mpr inBounds)⟩
  unfold sortRows
  rw [StableSort.insertionSort_flatMap rowLe (plan_layered sized ordered planned) covered]

theorem sorted_chunks (sized : 1 ≤ size.toNat) (ordered : start.toNat ≤ endBlock.toNat)
    (planned : ChunkRanges .checked start endBlock size plan) (alloy : Alloy)
    (chain : List ChainLog) (addresses : List Address) (E : String) :
    plan.flatMap (fun chunk => sortRows (eventRows alloy E (matching chain addresses chunk))) =
      sortRows (eventRows alloy E (matching chain addresses (start, endBlock))) := by
  have inside : ∀ row ∈ eventRows alloy E (matching chain addresses (start, endBlock)),
      InChunk row.blockNumber (start, endBlock) := by
    intro row member
    obtain ⟨log, inRange, isRow⟩ := List.mem_filterMap.mp member
    obtain ⟨entry, inChain, rfl⟩ := List.mem_map.mp inRange
    have matches_ : Matches addresses (start, endBlock) entry :=
      of_decide_eq_true (List.mem_filter.mp inChain).2
    rw [eventRow_block isRow]
    exact matches_.2
  rw [← sorted_parts sized ordered planned inside]
  apply List.flatMap_congr
  intro chunk member
  rw [eventRows_part (plan_inside sized ordered planned member)]

end Sorting

/-- A run over a plan made without overflow, without fetch and write failures: an event type's
files, read in chunk order, hold the stable sort of its rows in the requested range. -/
theorem works_sorted {world : World} {config : BackfillConfig} {disk : Disk}
    {addresses : List Address} {plan : List Chunk} {final : State} {result : Except String Unit}
    (works : Works world config disk addresses plan final result)
    (inBounds : ChunkRanges .checked config.startBlock config.endBlock
      config.chunkSizeByBlockNumber plan) {chain : List ChainLog}
    (provider : ∀ chunk ∈ plan, world.getLogs addresses chunk = .ok (matching chain addresses chunk))
    (writes : ∀ chunk ∈ plan, ∀ E, (world.fileIo chunk E).outcome = .complete) (E : String) :
    chunkRows final.shared.output plan E =
      rangeRows world.alloy chain addresses (config.startBlock, config.endBlock) E := by
  obtain ⟨ordered, sized, -⟩ := prepare_ok works.prepared
  obtain ⟨schedule, completes⟩ := works.completed
  have rows := @chunkRows_eq _ _ _ _ _ _ completes (matching chain addresses) provider writes E
  rw [rows, rangeRows,
    ← sorted_chunks sized (UInt64.le_iff_toNat_le.mp ordered) inBounds world.alloy chain addresses E,
    List.map_flatMap]
  rfl

/-- Two runs over one range, without overflow in their plans and without fetch and write
failures: whatever their chunk sizes, each event type's files hold the same rows in chunk
order, the stable sort of its rows in the range, and they are on the disk. -/
theorem chunk_size_irrelevant {world : World} {config config' : BackfillConfig}
    {disk disk' : Disk} {addresses : List Address} {plan plan' : List Chunk}
    {final final' : State} {result result' : Except String Unit}
    (sameRange : config'.startBlock = config.startBlock ∧ config'.endBlock = config.endBlock)
    (works : Works world config disk addresses plan final result)
    (works' : Works world config' disk' addresses plan' final' result')
    (inBounds : ChunkRanges .checked config.startBlock config.endBlock
      config.chunkSizeByBlockNumber plan)
    (inBounds' : ChunkRanges .checked config'.startBlock config'.endBlock
      config'.chunkSizeByBlockNumber plan') {chain : List ChainLog}
    (provider : ∀ chunk ∈ plan ++ plan',
      world.getLogs addresses chunk = .ok (matching chain addresses chunk))
    (writes : ∀ chunk ∈ plan ++ plan', ∀ E, (world.fileIo chunk E).outcome = .complete)
    (E : String) :
    chunkRows final.shared.output plan E =
        rangeRows world.alloy chain addresses (config.startBlock, config.endBlock) E ∧
      chunkRows final'.shared.output plan' E =
        rangeRows world.alloy chain addresses (config.startBlock, config.endBlock) E ∧
      (∀ path table, final.shared.output.written path = some table →
        final.shared.output.disk.file path = some (.finished table)) ∧
      ∀ path table, final'.shared.output.written path = some table →
        final'.shared.output.disk.file path = some (.finished table) := by
  obtain ⟨_, completes⟩ := works.completed
  obtain ⟨_, completes'⟩ := works'.completed
  refine ⟨?_, ?_, fun _ _ => written_on_disk completes, fun _ _ => written_on_disk completes'⟩
  · exact works_sorted works inBounds
      (fun chunk member => provider chunk (List.mem_append_left _ member))
      (fun chunk member => writes chunk (List.mem_append_left _ member)) E
  · rw [← sameRange.1, ← sameRange.2]
    exact works_sorted works' inBounds'
      (fun chunk member => provider chunk (List.mem_append_right _ member))
      (fun chunk member => writes chunk (List.mem_append_right _ member)) E

section Example

def cancelledEntry (block index : UInt64) (topics : List B256) : ChainLog where
  block := block
  log := cancelledLog block index topics
  reported _ h := (Option.some.inj h).symm

def unsorted : List ChainLog :=
  [cancelledEntry 17 0 [⟨7⟩], cancelledEntry 12 1 [⟨8⟩], cancelledEntry 12 0 [⟨9⟩]]

def quiet (chain : List ChainLog) : World where
  alloy := Reference.alloy
  http := httpOk
  getLogs addresses chunk := .ok (matching chain addresses chunk)
  fileIo _ _ := fileOk
  overflow := .checked

/-- A prepared configuration with a plan can be worked off. -/
theorem works_exists {world : World} {config : BackfillConfig} {addresses : List Address}
    {plan : List Chunk} (prepared : prepare world.http world.alloy config = .ok addresses)
    (planned : ChunkRanges world.overflow config.startBlock config.endBlock
      config.chunkSizeByBlockNumber plan) (disk : Disk) :
    ∃ final result, Works world config disk addresses plan final result := by
  obtain ⟨-, -, parallel, rate, -⟩ := prepare_ok prepared
  have start : Machine.exec (step (world.env config addresses))
      (begin_ (world.env config addresses) plan disk) [] =
        some (begin_ (world.env config addresses) plan disk) := rfl
  obtain ⟨schedule, final, result, completes⟩ := completes_from parallel rate start
  exact ⟨final, result, prepared, planned, schedule, completes⟩

def oneChunk : BackfillConfig := { twoChunks with chunkSizeByBlockNumber := 100 }

theorem chunk_size_irrelevant_unsorted : ∃ final result final' result',
    Works (quiet unsorted) twoChunks Disk.empty watched [(10, 14), (15, 19)] final result ∧
      Works (quiet unsorted) oneChunk Disk.empty watched [(10, 19)] final' result' ∧
      chunkRows final.shared.output [(10, 14), (15, 19)] "OrderCancelled" =
        rangeRows Reference.alloy unsorted watched (10, 19) "OrderCancelled" ∧
      chunkRows final'.shared.output [(10, 19)] "OrderCancelled" =
        rangeRows Reference.alloy unsorted watched (10, 19) "OrderCancelled" := by
  have small : ∃ final result, Works (quiet unsorted) twoChunks Disk.empty watched
      [(10, 14), (15, 19)] final result :=
    @works_exists (quiet unsorted) _ _ _ twoChunks_prepared (chunkRanges_of_run 3 rfl) Disk.empty
  have large : ∃ final result, Works (quiet unsorted) oneChunk Disk.empty watched
      [(10, 19)] final result :=
    @works_exists (quiet unsorted) _ _ _ (prepared_range (by decide) (by decide))
      (chunkRanges_of_run 3 rfl) Disk.empty
  obtain ⟨final, result, works⟩ := small
  obtain ⟨final', result', works'⟩ := large
  have sameRange : oneChunk.startBlock = twoChunks.startBlock ∧
      oneChunk.endBlock = twoChunks.endBlock := ⟨rfl, rfl⟩
  have same := chunk_size_irrelevant sameRange works works' (chunkRanges_of_run 3 rfl)
    (chunkRanges_of_run 3 rfl)
    (fun _ _ => (rfl : (quiet unsorted).getLogs watched _ = .ok (matching unsorted watched _)))
    (fun _ _ _ => rfl) "OrderCancelled"
  exact ⟨final, result, final', result', works, works', same.1, same.2.1⟩

end Example

end PolymarketIndexer.Backfill
