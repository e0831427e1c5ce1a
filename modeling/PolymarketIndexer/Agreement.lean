import PolymarketIndexer.Frontfill.Durability
import PolymarketIndexer.Frontfill.Rotation
import PolymarketIndexer.Frontfill.Success
import PolymarketIndexer.Backfill.Chunking

/-! # Live and historical ingestion agree

A live run appends row by row, opens writers when they are needed and rotates them by
blocks; a backfill groups, sorts and writes a batch for each chunk. Over the same logs
in chain order both come to the rows of these logs, in order, in files of one schema.
-/

namespace PolymarketIndexer

open Backfill ParquetStorage

/-- The logs of a block range. -/
def between (logs : List Log) (chunk : Chunk) : List Log :=
  logs.filter (fun log => log.blockNumber.any (fun block => InChunk block chunk))

/-- A log does not come after another. -/
def Precedes (a b : Log) : Prop :=
  ∀ blockA indexA blockB indexB, a.blockNumber = some blockA → a.logIndex = some indexA →
    b.blockNumber = some blockB → b.logIndex = some indexB →
    blockA < blockB ∨ (blockA = blockB ∧ indexA ≤ indexB)

namespace Backfill

section Rows

variable {alloy : Alloy} {E : String} {logs : List Log}

theorem eventRow_position {log : Log} {row : EventRow} (h : eventRow? alloy E log = some row) :
    log.blockNumber = some row.blockNumber ∧ log.logIndex = some row.logIndex := by
  obtain ⟨columns, wasRead⟩ := eventRow_eq_some.mp h
  obtain ⟨_, _, _, _, -, block, -, index, -, -, rfl⟩ := read_eq_row.mp wasRead
  exact ⟨block, index⟩

theorem eventRows_between (chunk : Chunk) :
    eventRows alloy E (between logs chunk) =
      (eventRows alloy E logs).filter (fun row => InChunk row.blockNumber chunk) := by
  unfold eventRows between
  rw [List.filterMap_filter, List.filter_filterMap]
  apply List.filterMap_congr
  intro log _
  cases isRow : eventRow? alloy E log with
  | none => simp
  | some row =>
      rw [(eventRow_position isRow).1]
      simp [Option.filter]

/-- The rows of logs in chain order are sorted. -/
theorem sortRows_ascending (ascending : logs.Pairwise Precedes) :
    sortRows (eventRows alloy E logs) = eventRows alloy E logs := by
  apply List.Pairwise.insertionSort_eq
  apply List.Pairwise.filterMap _ _ ascending
  intro a b precedes row isRow row' isRow'
  obtain ⟨blockA, indexA⟩ := eventRow_position isRow
  obtain ⟨blockB, indexB⟩ := eventRow_position isRow'
  exact precedes _ _ _ _ blockA indexA blockB indexB

end Rows

section Works

variable {world : World} {config : BackfillConfig} {disk : Disk} {addresses : List Address}
  {plan : List Chunk} {final : State} {result : Except String Unit} {logs : List Log}

/-- Over logs in chain order the files of a backfill hold, in chunk order, the rows of the logs. -/
theorem works_between (works : Works world config disk addresses plan final result)
    (inBounds : ChunkRanges .checked config.startBlock config.endBlock
      config.chunkSizeByBlockNumber plan)
    (provider : ∀ chunk ∈ plan, world.getLogs addresses chunk = .ok (between logs chunk))
    (writes : ∀ chunk ∈ plan, ∀ E, (world.fileIo chunk E).outcome = .complete)
    (inside : ∀ log ∈ logs, ∀ block, log.blockNumber = some block →
      InChunk block (config.startBlock, config.endBlock))
    (ascending : logs.Pairwise Precedes) (E : String) :
    chunkRows final.shared.output plan E =
      (eventRows world.alloy E logs).map (EventRow.cells E) := by
  obtain ⟨ordered, sized, -⟩ := prepare_ok works.prepared
  obtain ⟨schedule, completes⟩ := works.completed
  have rows := @chunkRows_eq _ _ _ _ _ _ completes (between logs) provider writes E
  have inRange : ∀ row ∈ eventRows world.alloy E logs,
      InChunk row.blockNumber (config.startBlock, config.endBlock) := by
    intro row member
    obtain ⟨log, inLogs, isRow⟩ := List.mem_filterMap.mp member
    exact inside log inLogs _ (eventRow_position isRow).1
  have sorted := sorted_parts sized (UInt64.le_iff_toNat_le.mp ordered) inBounds inRange
  rw [sortRows_ascending ascending] at sorted
  rw [rows, ← sorted, List.map_flatMap]
  apply List.flatMap_congr
  intro chunk _
  rw [eventRows_between]
  rfl

/-- When nothing fails and no log lacks metadata, a backfill succeeds. -/
theorem works_succeeds (works : Works world config disk addresses plan final result)
    (provider : ∀ chunk ∈ plan, world.getLogs addresses chunk = .ok (between logs chunk))
    (writes : ∀ chunk ∈ plan, ∀ E, (world.fileIo chunk E).outcome = .complete)
    (complete : ∀ log ∈ logs, HasMetadata log) : result = .ok () := by
  obtain ⟨schedule, completes⟩ := works.completed
  apply @completed_clean _ _ _ _ _ _ completes (between logs)
  intro chunk planned
  refine ⟨provider chunk planned, writes chunk planned, fun log member => ?_⟩
  obtain ⟨block, hash, index⟩ := complete log (List.mem_filter.mp member).1
  simp [lacksMetadata, Option.isNone_eq_false_iff.mpr block, Option.isNone_eq_false_iff.mpr hash,
    Option.isNone_eq_false_iff.mpr index]

/-- Every file of a completed run has the schema of its event type. -/
theorem written_schemaOf {env : Env} {schedule : List Input}
    (h : Completes env plan disk schedule final result) {chunk : Chunk} (planned : chunk ∈ plan)
    {E : String} {table : Table}
    (written : final.shared.output.written (chunkPath E chunk) = some table) :
    SchemaOf E table.schema := by
  rw [written_eq h planned, chunkTable] at written
  split at written
  · cases written
  · split at written
    · obtain ⟨⟨columns, rows⟩, found, rfl⟩ := Option.map_eq_some_iff.mp written
      obtain ⟨-, -, kind, name, rfl⟩ := group_entry found
      exact ⟨kind, name, rfl⟩
    · cases written

end Works

end Backfill

namespace Frontfill

section Turns

variable (turns : List (Turn ParquetIo))

/-- The calls to the sink of some turns. -/
def turnCalls : List SinkCall := (turns.flatMap Turn.effects).filterMap Effect.sinkCall?

theorem turnCalls_cons (turn : Turn ParquetIo) :
    turnCalls (turn :: turns) =
      (turn.rotation.map (fun io => SinkCall.rotateWriters io.close)).toList ++
        ((turn.write.map (fun write => SinkCall.writeEvent write.1.write write.2)).toList ++
          turnCalls turns) := by
  obtain ⟨log, block, rotation, write⟩ := turn
  unfold turnCalls
  rw [List.flatMap_cons, List.filterMap_append]
  cases rotation <;> cases write <;> rfl

theorem turnCalls_unclosed : ∀ call ∈ turnCalls turns, call.isClose = false := by
  induction turns with
  | nil =>
      intro call member
      cases member
  | cons turn turns ih =>
      intro call member
      rw [turnCalls_cons] at member
      rcases List.mem_append.mp member with rotation | member
      · obtain ⟨io, -, rfl⟩ := Option.map_eq_some_iff.mp (Option.mem_toList.mp rotation)
        rfl
      · rcases List.mem_append.mp member with write | later
        · obtain ⟨write, -, rfl⟩ := Option.map_eq_some_iff.mp (Option.mem_toList.mp write)
          rfl
        · exact ih call later

theorem turnCalls_rotations : rotations (turnCalls turns) = turns.countP Turn.rotates := by
  induction turns with
  | nil => rfl
  | cons turn turns ih =>
      obtain ⟨log, block, rotation, write⟩ := turn
      unfold rotations at ih ⊢
      rw [turnCalls_cons, List.countP_append, List.countP_append, ih, List.countP_cons]
      cases rotation <;> cases write <;> simp [SinkCall.isRotation, Turn.rotates, Nat.add_comm]

theorem turns_received :
    (turns.flatMap Turn.effects).filterMap Effect.log? = turns.map Turn.log := by
  induction turns with
  | nil => rfl
  | cons turn turns ih =>
      obtain ⟨log, block, rotation, write⟩ := turn
      rw [List.flatMap_cons, List.filterMap_append, ih]
      cases rotation <;> cases write <;> rfl

end Turns

section Live

variable {config : FrontfillConfig} {alloy : Alloy} {disk : Disk} {logs : List Log} {t : LiveState}

/-- The turns of logs in chain order are in block order. -/
theorem turns_ascending {turns : List (Turn ParquetIo)}
    (blocks : ∀ turn ∈ turns, turn.log.blockNumber = some turn.block)
    (complete : ∀ log ∈ turns.map Turn.log, HasMetadata log)
    (ascending : (turns.map Turn.log).Pairwise Precedes) :
    turns.Pairwise (fun a b => a.block ≤ b.block) := by
  apply (List.pairwise_map.mp ascending).imp_of_mem
  intro a b inA inB precedes
  obtain ⟨-, -, hasIndexA⟩ := complete a.log (List.mem_map.mpr ⟨a, inA, rfl⟩)
  obtain ⟨-, -, hasIndexB⟩ := complete b.log (List.mem_map.mpr ⟨b, inB, rfl⟩)
  obtain ⟨indexA, isA⟩ := Option.isSome_iff_exists.mp hasIndexA
  obtain ⟨indexB, isB⟩ := Option.isSome_iff_exists.mp hasIndexB
  rcases precedes _ _ _ _ (blocks a inA) isA (blocks b inB) isB with less | ⟨same, -⟩
  · exact UInt64.le_of_lt less
  · exact UInt64.le_of_eq same

/-- A run rotates fewer times than there are file sets. -/
theorem rotations_room {F : UInt64} {turns : List (Turn ParquetIo)} (windows : ByWindows F turns)
    (ascending : turns.Pairwise (fun a b => a.block ≤ b.block))
    (low : ∀ turn ∈ turns, turn.block < U64.max) : turns.countP Turn.rotates < 2 ^ 64 := by
  cases starts : turns.head? with
  | none =>
      rw [List.head?_eq_none_iff.mp starts]
      exact Nat.two_pow_pos 64
  | some first =>
      have filled : turns ≠ [] := by
        rintro rfl
        cases starts
      have few := windows.few ascending low first _ starts (List.getLast?_eq_some_getLast filled)
      have bound := (turns.getLast filled).block.toNat_lt
      have := Nat.div_le_self ((turns.getLast filled).block.toNat - first.block.toNat) F.toNat
      omega

/-- The rows of a log as the live run has them. -/
theorem outcome_row {log : Log} (has : HasMetadata log) (E : String) :
    (((outcome alloy log).toOption.join).filter (fun call => call.eventType = E)).map WriteCall.row =
      (eventRow? alloy E log).map (EventRow.cells E) := by
  obtain ⟨taken, checked⟩ := @hasMetadata_checked alloy log has
  obtain ⟨hash, block, isHash, index, same, text⟩ := checkMetadata_iff.mp checked
  unfold eventRow? Backfill.read
  cases decoded : decodeLog alloy log with
  | error error =>
      rw [outcome_undecodable checked (by rw [same, decoded])]
      rfl
  | ok kept =>
      cases kept with
      | none =>
          rw [outcome_ignored checked (by rw [same, decoded])]
          rfl
      | some event =>
          rw [outcome_kept checked (by rw [same, decoded])]
          simp only [block, isHash, index]
          by_cases own : event.eventType = E
          · subst own
            simp [Except.toOption, Option.filter, Taken.call, WriteCall.row, EventRow.cells, text,
              Function.comp_def]
          · simp [Except.toOption, Option.filter, Taken.call, own]

/-- What a run over good logs has accepted are the rows of the logs. -/
theorem follows_accepted {result : Except String Unit}
    (follows : Follows config alloy disk logs t result) (good : ∀ log ∈ logs, Good alloy log)
    (E : String) : t.accepted E = (eventRows alloy E logs).map (EventRow.cells E) := by
  obtain rfl := follows_ok follows good
  obtain ⟨runtime, s, inputs, start, run, -⟩ := follows.reached
  have fed := (run_ingested start run).free (by rw [follows.returned]; rfl)
    (.inr (by rw [follows.returned]; rfl))
  rw [follows.received] at fed
  obtain ⟨written, -⟩ := Feed.feed_done fed
  unfold State.accepted eventRows
  rw [written, List.filter_filterMap, List.map_filterMap, List.map_filterMap]
  apply List.filterMap_congr
  intro log member
  exact outcome_row (good log member).1 E

end Live

end Frontfill

/-- The files a live run and a backfill have for an event type. -/
structure Agree (live : ParquetSink) (historical : Output) (plan : List Chunk) (E : String) :
    Prop where
  shut : live.storage.writers.lookup E = none
  sets : ∃ sets : List (Int × UInt64), (closedFor E live).map ArrowWriter.path =
    sets.map (setPath E) ∧ sets.Pairwise (fun a b => a.2.toNat < b.2.toNat)
  liveFiles : ∀ writer ∈ closedFor E live,
    live.disk.file writer.path = some (.finished writer.table)
  historicalFiles : ∀ path table, historical.written path = some table →
    historical.disk.file path = some (.finished table)
  rows : (closedFor E live).flatMap (fun writer => writer.table.rows) = chunkRows historical plan E
  schema : ∃ schema, (∀ writer ∈ closedFor E live, writer.table.schema = schema) ∧
    ∀ chunk ∈ plan, ∀ table, historical.written (chunkPath E chunk) = some table →
      table.schema = schema

section Main

variable {world : World} {config : Frontfill.FrontfillConfig} {bconfig : BackfillConfig}
  {disk disk' : Disk} {logs : List Log} {t : Frontfill.LiveState} {addresses : List Address}
  {plan : List Chunk} {final : Backfill.State} {result result' : Except String Unit}

/-- The blocks of a range planned without overflow stay below the largest one. -/
theorem block_low (sized : 1 ≤ bconfig.chunkSizeByBlockNumber.toNat)
    (ordered : bconfig.startBlock.toNat ≤ bconfig.endBlock.toNat)
    (inBounds : ChunkRanges .checked bconfig.startBlock bconfig.endBlock
      bconfig.chunkSizeByBlockNumber plan) {block : UInt64}
    (inside : InChunk block (bconfig.startBlock, bconfig.endBlock)) : block < U64.max := by
  have sum := (chunkRanges_cut sized ordered inBounds).2
  have below := lt_lastSum sized ordered
  have upper : block.toNat ≤ bconfig.endBlock.toNat := UInt64.le_iff_toNat_le.mp inside.2
  have : U64.max.toNat = 2 ^ 64 - 1 := rfl
  exact UInt64.lt_iff_toNat_lt.mpr (by omega)

/-- The sink of a run that was shut down: its calls are those of some turns, and a close. -/
theorem shut_calls (follows : Frontfill.Follows config world.alloy disk logs t (.ok ())) :
    ∃ (turns : List (Frontfill.Turn ParquetIo)) (io : CloseIo),
      (perform (Frontfill.turnCalls turns ++ [.closeWriters io])).run (freshOn disk) =
        (.ok (), t.sink) ∧
      (perform t.sinkCalls).run (freshOn disk) = (.ok (), t.sink) ∧
      turns.map Frontfill.Turn.log = logs ∧
      (∀ turn ∈ turns, turn.log.blockNumber = some turn.block) ∧
      Frontfill.ByWindows config.flushBlocks turns := by
  obtain ⟨runtime, s, inputs, start, run, -⟩ := follows.reached
  obtain ⟨positive, -⟩ := Frontfill.launch_start start
  have ok : t.phase.result? = some (.ok ()) := by
    rw [follows.returned]
    rfl
  obtain ⟨turns, io, trace, windowed⟩ := (Frontfill.run_turned start run).stopped ok
  have recorded := Frontfill.run_recorded start run (.inr ok)
  have calls : t.sinkCalls = Frontfill.turnCalls turns ++ [.closeWriters io.close] := by
    rw [Frontfill.State.sinkCalls, trace, List.filterMap_append]
    rfl
  have received : turns.map Frontfill.Turn.log = logs := by
    rw [← follows.received, Frontfill.State.received, trace, List.filterMap_append,
      Frontfill.turns_received]
    exact (List.append_nil _).symm
  refine ⟨turns, io.close, ?_, recorded, received, windowed.blocks, windowed.byWindows positive⟩
  rw [← calls]
  exact recorded

/-- The closed files of a history without repeated openings: their paths, and each is readable. -/
theorem closed_files {calls : List SinkCall} {io : CloseIo} {sink : ParquetSink}
    (done : (perform (calls ++ [.closeWriters io])).run (freshOn disk) = (.ok (), sink))
    (unclosed : ∀ call ∈ calls, call.isClose = false) (room : rotations calls < 2 ^ 64)
    (E : String) :
    (∃ sets : List (Int × UInt64), (closedFor E sink).map ArrowWriter.path =
      sets.map (setPath E) ∧ sets.Pairwise (fun a b => a.2.toNat < b.2.toNat)) ∧
    ∀ writer ∈ closedFor E sink, sink.disk.file writer.path = some (.finished writer.table) := by
  have shut := shut_after_close (keyed_freshOn disk) done
  have opened := perform_paths (keyed_freshOn disk) done E
  have closed : (closedFor E sink).map ArrowWriter.path =
      (openings E 0 false calls).map (setPath E) := by
    rw [openings_close _ _ _ _ rfl] at opened
    simpa [paths, shut E, closedFor, freshOn, new] using opened
  have room' : (0 : UInt64).toNat + rotations calls < 2 ^ 64 := by
    have : (0 : UInt64).toNat = 0 := rfl
    omega
  obtain ⟨ascending, -⟩ := @openings_ascending E _ unclosed 0 false room'
  refine ⟨⟨_, closed, ascending⟩, fun writer member => ?_⟩
  have apart : ((closedFor E sink).map ArrowWriter.path).Nodup := by
    rw [closed, setPath_nodup]
    apply ascending.imp
    rintro a b less rfl
    omega
  exact finished_on_disk (perform_consistent (consistent_freshOn disk) done) shut apart member

/-- The same logs in chain order, all good, through a live run and through a backfill of a range
they lie in, without I/O failures: both succeed, and for every event type their files agree. -/
theorem ingestion_agrees (live : Frontfill.Follows config world.alloy disk logs t result)
    (works : Works world bconfig disk' addresses plan final result')
    (inBounds : ChunkRanges .checked bconfig.startBlock bconfig.endBlock
      bconfig.chunkSizeByBlockNumber plan)
    (provider : ∀ chunk ∈ plan, world.getLogs addresses chunk = .ok (between logs chunk))
    (writes : ∀ chunk ∈ plan, ∀ E, (world.fileIo chunk E).outcome = .complete)
    (good : ∀ log ∈ logs, Frontfill.Good world.alloy log)
    (inside : ∀ log ∈ logs, ∀ block, log.blockNumber = some block →
      InChunk block (bconfig.startBlock, bconfig.endBlock))
    (ascending : logs.Pairwise Precedes) :
    result = .ok () ∧ result' = .ok () ∧ ∀ E, Agree t.sink final.shared.output plan E := by
  obtain rfl := Frontfill.follows_ok live good
  have complete : ∀ log ∈ logs, HasMetadata log := fun log member => (good log member).1
  refine ⟨rfl, works_succeeds works provider writes complete, fun E => ?_⟩
  obtain ⟨ordered, sized, -⟩ := prepare_ok works.prepared
  obtain ⟨schedule, completes⟩ := works.completed
  obtain ⟨turns, io, done, recorded, received, blocks, windows⟩ := shut_calls live
  have shut := shut_after_close (keyed_freshOn disk) done
  have low : ∀ turn ∈ turns, turn.block < U64.max := by
    intro turn member
    have inLogs : turn.log ∈ logs := by
      rw [← received]
      exact List.mem_map.mpr ⟨turn, member, rfl⟩
    exact block_low sized (UInt64.le_iff_toNat_le.mp ordered) inBounds
      (inside turn.log inLogs turn.block (blocks turn member))
  have inOrder := @Frontfill.turns_ascending turns blocks (by rw [received]; exact complete)
    (by rw [received]; exact ascending)
  have room : rotations (Frontfill.turnCalls turns) < 2 ^ 64 := by
    rw [Frontfill.turnCalls_rotations]
    exact Frontfill.rotations_room windows inOrder low
  obtain ⟨sets, files⟩ := closed_files done (Frontfill.turnCalls_unclosed turns) room E
  have accepted := Frontfill.follows_accepted live good E
  have stored := works_between works inBounds provider writes inside ascending E
  have typed : Typed t.sink := by
    obtain ⟨runtime, s, inputs, start, run, -⟩ := live.reached
    exact Frontfill.run_keeps Frontfill.typed_kept (typed_freshOn disk) start run
      (.inr (by rw [live.returned]; rfl))
  have liveSchema : ∀ writer ∈ closedFor E t.sink, SchemaOf E writer.table.schema := by
    intro writer member
    obtain ⟨inClosed, named⟩ := List.mem_filter.mp member
    have own := typed.finished writer inClosed
    rw [of_decide_eq_true named] at own
    exact own
  exact {
    shut := shut E
    sets := sets
    liveFiles := files
    historicalFiles := fun path table => written_on_disk completes
    rows := by
      have durable := (Frontfill.durable_iff recorded).mpr shut E
      rw [stored, ← accepted]
      exact durable
    schema := by
      by_cases known : ∃ schema, SchemaOf E schema
      · obtain ⟨schema, isSchema⟩ := known
        refine ⟨schema, fun writer member => (liveSchema writer member).unique isSchema, ?_⟩
        intro chunk planned table written
        exact (written_schemaOf completes planned written).unique isSchema
      · refine ⟨{ fields := [] }, fun writer member => ?_, ?_⟩
        · exact absurd ⟨_, liveSchema writer member⟩ known
        · intro chunk planned table written
          exact absurd ⟨_, written_schemaOf completes planned written⟩ known }

end Main

section Example

def shortWindows : Frontfill.FrontfillConfig := { Frontfill.liveConfig with flushBlocks := 5 }

def twoLogs : List Log := [Frontfill.cancelled 10 0, Frontfill.cancelled 17 0]

/-- The second log rotates, then the run is stopped. -/
def followed : List (Frontfill.Input ParquetIo) :=
  Frontfill.connecting ++ Frontfill.ingesting (Frontfill.cancelled 10 0) ++
    [.next (some (Frontfill.cancelled 17 0)), .lock, .sink Frontfill.sinkOk,
      .sink Frontfill.sinkOk] ++ Frontfill.stopping

def providing (logs : List Log) : World :=
  { quiet [] with getLogs := fun _ chunk => .ok (between logs chunk) }

def endedWell (t : Frontfill.LiveState) : Bool :=
  match t.phase with
  | .returned (.ok _) => true
  | _ => false

theorem endedWell_returned {t : Frontfill.LiveState} (h : endedWell t = true) :
    t.phase = .returned (.ok ()) := by
  unfold endedWell at h
  split at h
  · assumption
  · cases h

theorem follows_twoLogs : ∃ t,
    Frontfill.Follows shortWindows Reference.alloy Disk.empty twoLogs t (.ok ()) := by
  have returns : (Machine.exec (Frontfill.step shortWindows Reference.alloy) Frontfill.liveStart
      followed).isSome := by
    rw [followed, List.append_assoc, List.append_assoc, Frontfill.exec_connecting rfl]
    decide +kernel
  obtain ⟨t, run⟩ := Option.isSome_iff_exists.mp returns
  have heard := run
  rw [followed, List.append_assoc, List.append_assoc, Frontfill.exec_connecting rfl] at heard
  have harmless : ∀ input ∈ followed, Frontfill.Harmless input := by
    have closes : WriteIo.Succeeds Frontfill.sinkOk.write ∧
        ∀ E, Frontfill.sinkOk.close.close E = .ok () := ⟨⟨rfl, rfl, rfl, rfl, rfl⟩, fun _ => rfl⟩
    simp [followed, Frontfill.connecting, Frontfill.ingesting, Frontfill.stopping,
      Frontfill.Harmless, closes]
  have usable : Frontfill.Usable shortWindows Reference.alloy :=
    ⟨⟨_, rfl⟩, Frontfill.buildFilter_ok Reference.addresses_parse _⟩
  have received : t.received = twoLogs :=
    Frontfill.seen Frontfill.State.received heard (by decide +kernel)
  have phase : t.phase = .returned (.ok ()) :=
    endedWell_returned (Frontfill.seen endedWell heard (by decide +kernel))
  exact ⟨t, usable, ⟨.error "disabled", Frontfill.liveStart, followed, rfl, run, harmless⟩, phase,
    received⟩

theorem ingestion_agrees_twoLogs : ∃ t final,
    Frontfill.Follows shortWindows Reference.alloy Disk.empty twoLogs t (.ok ()) ∧
      Works (providing twoLogs) twoChunks Disk.empty watched [(10, 14), (15, 19)] final (.ok ()) ∧
      Agree t.sink final.shared.output [(10, 14), (15, 19)] "OrderCancelled" := by
  obtain ⟨t, follows⟩ := follows_twoLogs
  obtain ⟨final, result, works⟩ : ∃ final result, Works (providing twoLogs) twoChunks Disk.empty
      watched [(10, 14), (15, 19)] final result :=
    @works_exists (providing twoLogs) _ _ _ twoChunks_prepared (chunkRanges_of_run 3 rfl)
      Disk.empty
  have good : ∀ log ∈ twoLogs, Frontfill.Good Reference.alloy log := by
    intro log member
    simp only [twoLogs, List.mem_cons, List.not_mem_nil, or_false] at member
    rcases member with rfl | rfl
    · exact ⟨⟨rfl, rfl, rfl⟩, fun error => by nofun⟩
    · exact ⟨⟨rfl, rfl, rfl⟩, fun error => by nofun⟩
  have inside : ∀ log ∈ twoLogs, ∀ block, log.blockNumber = some block →
      InChunk block (twoChunks.startBlock, twoChunks.endBlock) := by
    intro log member block
    simp only [twoLogs, List.mem_cons, List.not_mem_nil, or_false] at member
    rcases member with rfl | rfl
    · rintro ⟨⟩
      decide
    · rintro ⟨⟩
      decide
  have ascending : twoLogs.Pairwise Precedes := by
    refine List.pairwise_pair.mpr ?_
    rintro _ _ _ _ ⟨⟩ ⟨⟩ ⟨⟩ ⟨⟩
    exact .inl (by decide)
  have agrees := ingestion_agrees follows works (chunkRanges_of_run 3 rfl)
    (fun _ _ => (rfl : (providing twoLogs).getLogs watched _ = .ok (between twoLogs _)))
    (fun _ _ _ => rfl) good inside ascending
  obtain ⟨-, rfl, same⟩ := agrees
  exact ⟨t, final, follows, works, same "OrderCancelled"⟩

end Example

end PolymarketIndexer
