import PolymarketIndexer.Archive.Readers
import PolymarketIndexer.Backfill.Completeness

/-! # What the files of a backfill tell

At every moment a path is as it was, or it is a chunk's file for an event type: unfinished, or
holding exactly the logs of that event the provider answered for that chunk, in chain order. Each
file is finished all at once, so nothing in between can be read.
-/

namespace PolymarketIndexer

/-- The order of the chain. -/
def StoredLog.le (a b : StoredLog) : Prop :=
  a.blockNumber < b.blockNumber ∨ (a.blockNumber = b.blockNumber ∧ a.logIndex ≤ b.logIndex)

namespace Backfill

open ParquetStorage

/-- A chunk's file for an event holds its logs of that event, each once and in chain order. -/
def Tells (readers : TextReaders) (alloy : Alloy) (disk : Disk) (logs : List Log) (chunk : Chunk)
    (kind : EventType) : Prop :=
  ∃ told : List StoredLog, told ≠ [] ∧
    readers.readFile disk (chunkPath kind.name chunk) = told.map some ∧
    told.Perm (storedLogs alloy kind logs) ∧ told.Pairwise StoredLog.le

section Rows

variable {readers : TextReaders} {alloy : Alloy}

/-- The row of a log is read as the log, and a log without a row is not of the event. -/
theorem eventRow_read (undo : readers.Undo alloy) (kind : EventType) (log : Log) :
    match eventRow? alloy kind.name log with
    | some row => ∃ stored, StoredLog.ofLog alloy log = some stored ∧ stored.kind = kind ∧
        stored.blockNumber = row.blockNumber ∧ stored.logIndex = row.logIndex ∧
        readers.readRow (expectedSchemaNames (columnNames kind)) (row.cells kind.name) = some stored
    | none => ∀ stored, StoredLog.ofLog alloy log = some stored → stored.kind ≠ kind := by
  cases isRow : eventRow? alloy kind.name log with
  | none =>
      rintro stored is rfl
      obtain ⟨⟨decoded, isDecoded, name⟩, block, hash, index⟩ := ofLog_decodes undo is
      have wasRead := read_eq_row.mpr
        ⟨decoded, _, _, _, isDecoded, block, hash, index, name.symm, rfl, rfl⟩
      cases isRow.symm.trans (eventRow_eq_some.mpr ⟨_, wasRead⟩)
  | some row =>
      obtain ⟨columns, wasRead⟩ := eventRow_eq_some.mp isRow
      obtain ⟨decoded, block, hash, index, isDecoded, isBlock, isHash, isIndex, name, -, rfl⟩ :=
        read_eq_row.mp wasRead
      obtain ⟨stored, ofLog, named, sameBlock, sameIndex, row⟩ :=
        readRow_decoded undo isDecoded isBlock isHash isIndex
      obtain rfl : stored.kind = kind := EventType.name_injective (named.trans name.symm)
      refine ⟨stored, ofLog, rfl, sameBlock, sameIndex, ?_⟩
      rw [← name] at row
      simpa [EventRow.cells, Function.comp_def] using row

/-- The rows of an event read back are its logs. -/
theorem eventRows_read (undo : readers.Undo alloy) (kind : EventType) (logs : List Log) :
    (eventRows alloy kind.name logs).map (fun row =>
      readers.readRow (expectedSchemaNames (columnNames kind)) (row.cells kind.name)) =
      (storedLogs alloy kind logs).map some := by
  unfold eventRows storedLogs
  induction logs with
  | nil => rfl
  | cons log logs ih =>
      have read := eventRow_read undo kind log
      rw [List.filterMap_cons, List.filterMap_cons]
      cases isRow : eventRow? alloy kind.name log with
      | none =>
          rw [isRow] at read
          cases is : StoredLog.ofLog alloy log with
          | none => exact ih
          | some stored =>
              rw [List.filter_cons_of_neg (by simpa using read stored is)]
              exact ih
      | some row =>
          rw [isRow] at read
          obtain ⟨stored, is, own, -, -, back⟩ := read
          rw [is, List.filter_cons_of_pos (by simpa using own), List.map_cons, List.map_cons, ih,
            back]

theorem rowLe_total (a b : EventRow) : rowLe a b ∨ rowLe b a := by
  simp only [rowLe, UInt64.lt_iff_toNat_lt, UInt64.le_iff_toNat_le, ← UInt64.toNat_inj]
  omega

theorem rowLe_trans (a b c : EventRow) (first : rowLe a b) (second : rowLe b c) : rowLe a c := by
  simp only [rowLe, UInt64.lt_iff_toNat_lt, UInt64.le_iff_toNat_le, ← UInt64.toNat_inj] at *
  omega

theorem sortRows_sorted (rows : List EventRow) : (sortRows rows).Pairwise rowLe := by
  have : Std.Total rowLe := ⟨rowLe_total⟩
  have : IsTrans EventRow rowLe := ⟨rowLe_trans⟩
  exact List.pairwise_insertionSort rowLe rows

theorem readRow_place {names : List String} {E : String} {row : EventRow} {stored : StoredLog}
    (is : readers.readRow names (row.cells E) = some stored) :
    stored.blockNumber = row.blockNumber ∧ stored.logIndex = row.logIndex := by
  simp only [EventRow.cells, TextReaders.readRow, Option.bind_eq_bind, Option.bind_eq_some_iff,
    Option.pure_def, Option.some.injEq] at is
  obtain ⟨kind, -, texts, -, event, -, hash, -, rfl⟩ := is
  exact ⟨rfl, rfl⟩

/-- A list of readings that all succeed. -/
theorem readings_told {α β : Type} {read : α → Option β} {xs : List α} {ys : List β}
    (perm : (xs.map read).Perm (ys.map some)) :
    ∃ told : List β, xs.map read = told.map some ∧ told.Perm ys := by
  have each : ∀ x ∈ xs, (read x).isSome = true := by
    intro x member
    obtain ⟨y, -, is⟩ := List.mem_map.mp (perm.mem_iff.mp (List.mem_map_of_mem member))
    rw [← is]
    rfl
  have told : xs.map read = (xs.filterMap read).map some := by
    rw [List.map_filterMap]
    clear perm
    induction xs with
    | nil => rfl
    | cons x xs ih =>
        obtain ⟨y, is⟩ := Option.isSome_iff_exists.mp (each x List.mem_cons_self)
        rw [List.map_cons, List.filterMap_cons, is,
          ih (fun x member => each x (List.mem_cons_of_mem _ member))]
        rfl
  refine ⟨xs.filterMap read, told, ?_⟩
  rw [told] at perm
  exact (List.map_perm_map_iff (Option.some_injective β)).mp perm

/-- The table of a chunk's event tells its logs. -/
theorem table_told (undo : readers.Undo alloy) (kind : EventType) (logs : List Log) :
    ∃ told : List StoredLog, (sortRows (eventRows alloy kind.name logs)).map (fun row =>
        readers.readRow (expectedSchemaNames (columnNames kind)) (row.cells kind.name)) =
          told.map some ∧
      told.Perm (storedLogs alloy kind logs) ∧ told.Pairwise StoredLog.le := by
  have sorted := (List.perm_insertionSort rowLe (eventRows alloy kind.name logs)).map (fun row =>
    readers.readRow (expectedSchemaNames (columnNames kind)) (row.cells kind.name))
  rw [eventRows_read undo] at sorted
  obtain ⟨told, read, perm⟩ := readings_told sorted
  refine ⟨told, read, perm, ?_⟩
  have ordered : ((sortRows (eventRows alloy kind.name logs)).map (fun row =>
      readers.readRow (expectedSchemaNames (columnNames kind)) (row.cells kind.name))).Pairwise
        (fun a b => ∀ x y, a = some x → b = some y → x.le y) := by
    rw [List.pairwise_map]
    refine (sortRows_sorted _).imp ?_
    intro a b le x y isX isY
    obtain ⟨blockX, indexX⟩ := readRow_place isX
    obtain ⟨blockY, indexY⟩ := readRow_place isY
    rw [StoredLog.le, blockX, blockY, indexX, indexY]
    exact le
  rw [sortRows, read, List.pairwise_map] at ordered
  exact ordered.imp (fun le => le _ _ rfl rfl)

end Rows

section Files

variable {readers : TextReaders} {env : Env} {plan : List Chunk} {disk : Disk}

/-- Running jobs leaves a path as it was, or it is the path of one of them: unfinished, or with
that job's table. -/
theorem jobs_outcome (jobs : List Job) (files : Files) (p : Path) :
    jobs.foldl Job.apply files p = files p ∨ ∃ job ∈ jobs, job.path = p ∧
      ((∃ flushed, jobs.foldl Job.apply files p = some (.unfinished flushed)) ∨
        jobs.foldl Job.apply files p = some (.finished job.table)) := by
  induction jobs generalizing files with
  | nil => exact .inl rfl
  | cons job jobs ih =>
      rw [List.foldl_cons]
      rcases ih (job.apply files) with same | ⟨later, member, path, outcome⟩
      · rw [same]
        by_cases here : p = job.path
        · unfold Job.apply
          cases job.outcome with
          | untouched error => exact .inl rfl
          | broken error flushed =>
              exact .inr ⟨job, List.mem_cons_self, here.symm, .inl ⟨flushed, if_pos here⟩⟩
          | complete => exact .inr ⟨job, List.mem_cons_self, here.symm, .inr (if_pos here)⟩
        · exact .inl (apply_elsewhere here)
      · exact .inr ⟨later, List.mem_cons_of_mem _ member, path, outcome⟩

/-- A file with the table of its chunk and event tells the logs. -/
theorem file_tells (undo : readers.Undo env.alloy) {chunk : Chunk} {kind : EventType}
    {logs : List Log} {rows : List EventRow}
    (found : (group env.alloy logs).byEvent.lookup kind.name = some (columnNames kind, rows))
    (file : disk.file (chunkPath kind.name chunk) =
      some (.finished (fileTable kind.name (columnNames kind) (sortRows rows)))) :
    Tells readers env.alloy disk logs chunk kind := by
  obtain ⟨rfl, filled, -⟩ := group_entry found
  obtain ⟨told, read, perm, ordered⟩ := table_told undo kind logs
  refine ⟨told, ?_, ?_, perm, ordered⟩
  · rintro rfl
    have length := congrArg List.length read
    rw [List.length_map, sortRows, List.length_insertionSort] at length
    exact filled (List.length_eq_zero_iff.mp length)
  · have names : schemaNames { fields := parquetFields (columnNames kind) } =
        expectedSchemaNames (columnNames kind) := schemaNames_schemaFor _
    simp only [TextReaders.readFile, Disk.table?, file, fileTable, names, ← read, List.map_map]
    rfl

theorem ran_planned {ran rest : List Job}
    (jobs : (ran ++ rest).Perm (plan.flatMap (chunkJobs env))) :
    ∀ job ∈ ran, ∃ chunk ∈ plan, job ∈ chunkJobs env chunk :=
  fun _ member => List.mem_flatMap.mp (jobs.mem_iff.mp (List.mem_append_left _ member))

/-- What a path can be at any moment. -/
theorem path_outcome (undo : readers.Undo env.alloy) {schedule : List Input} {s : State}
    (run : Machine.exec (step env) (begin_ env plan disk) schedule = some s) (p : Path) :
    s.shared.output.disk.file p = disk.file p ∨
      ∃ chunk ∈ plan, ∃ kind : EventType, p = chunkPath kind.name chunk ∧
        ((∃ flushed, s.shared.output.disk.file p = some (.unfinished flushed)) ∨
          ∃ logs, env.getLogs chunk = .ok logs ∧
            Tells readers env.alloy s.shared.output.disk logs chunk kind) := by
  obtain ⟨ran, jobs, file, -⟩ := (run_balanced run).jobs
  rcases jobs_outcome ran disk.file p with same | ⟨job, member, path, outcome⟩
  · exact .inl (by rw [file, same])
  · obtain ⟨chunk, inPlan, inChunk⟩ := ran_planned jobs job member
    obtain ⟨logs, E, ⟨columns, rows⟩, fetched, found, rfl⟩ := mem_chunkJobs.mp inChunk
    obtain ⟨-, -, kind, rfl, rfl⟩ := group_entry found
    refine .inr ⟨chunk, inPlan, kind, path.symm, ?_⟩
    rw [← file] at outcome
    refine outcome.imp_right fun finished => ⟨logs, fetched, file_tells undo found ?_⟩
    rw [← path] at finished
    exact finished

/-- What a successful run has told of a chunk. -/
theorem returned_tells (undo : readers.Undo env.alloy) {schedule : List Input} {s : State}
    (run : Machine.exec (step env) (begin_ env plan disk) schedule = some s)
    (returned : s.returned = some (.ok ())) {chunk : Chunk} (inPlan : chunk ∈ plan) :
    ∃ logs, env.getLogs chunk = .ok logs ∧ ∀ kind : EventType,
      if storedLogs env.alloy kind logs = [] then
        s.shared.output.disk.file (chunkPath kind.name chunk) =
          disk.file (chunkPath kind.name chunk)
      else Tells readers env.alloy s.shared.output.disk logs chunk kind := by
  obtain ⟨ran, jobs, file, -⟩ := (run_balanced run).jobs
  obtain ⟨answered, complete, -⟩ := @ok_chunk _ _ _ _ _ ⟨run, returned⟩ chunk inPlan
  refine ⟨_, answered, fun kind => ?_⟩
  have same := eventRows_read undo kind (fetchedLogs env chunk)
  rcases @group_lookup env.alloy (fetchedLogs env chunk) kind.name with ⟨none_, empty⟩ |
    ⟨kind', name, found, filled⟩
  · rw [empty, List.map_nil, eq_comm, List.map_eq_nil_iff] at same
    rw [if_pos same, file]
    refine jobs_elsewhere (fun job member path => ?_) _
    obtain ⟨chunk', -, inChunk⟩ := ran_planned jobs job member
    obtain ⟨logs, E, g, fetched, found, rfl⟩ := mem_chunkJobs.mp inChunk
    obtain ⟨rfl, rfl⟩ := chunkPath_inj path
    obtain rfl := Except.ok.inj (answered.symm.trans fetched)
    cases none_.symm.trans found
  · obtain rfl := EventType.name_injective name
    have some_ : storedLogs env.alloy kind (fetchedLogs env chunk) ≠ [] := by
      intro none_
      rw [none_, List.map_nil, List.map_eq_nil_iff] at same
      exact filled same
    rw [if_neg some_]
    refine file_tells undo found (written_on_disk ⟨run, returned⟩ ?_)
    have whole : (env.fileIo chunk kind.name).outcome = .complete :=
      complete _ (mem_chunkJobs.mpr ⟨_, _, _, answered, found, rfl⟩)
    rw [written_eq ⟨run, returned⟩ inPlan, chunkTable, answered]
    simp only [if_pos whole, found, Option.map_some]

/-- The files of a run at any moment, whatever fails: a path is as it was, or a planned chunk's
for an event type, and then unfinished or told by what the provider answered for the chunk. A run
that returns `Ok` was answered for every chunk, has told all of it, and touched nothing else. -/
theorem files_tell_chunks (undo : readers.Undo env.alloy) {schedule : List Input} {s : State}
    (run : Machine.exec (step env) (begin_ env plan disk) schedule = some s) :
    (∀ p, s.shared.output.disk.file p = disk.file p ∨
      ∃ chunk ∈ plan, ∃ kind : EventType, p = chunkPath kind.name chunk ∧
        ((∃ flushed, s.shared.output.disk.file p = some (.unfinished flushed)) ∨
          ∃ logs, env.getLogs chunk = .ok logs ∧
            Tells readers env.alloy s.shared.output.disk logs chunk kind)) ∧
    (s.returned = some (.ok ()) → ∀ chunk ∈ plan, ∃ logs, env.getLogs chunk = .ok logs ∧
      ∀ kind : EventType,
        if storedLogs env.alloy kind logs = [] then
          s.shared.output.disk.file (chunkPath kind.name chunk) =
            disk.file (chunkPath kind.name chunk)
        else Tells readers env.alloy s.shared.output.disk logs chunk kind) :=
  ⟨path_outcome undo run, fun returned _ inPlan => returned_tells undo run returned inPlan⟩

end Files

section Example

/-- The first of two chunks is written, the second one has its permit. -/
theorem files_tell_chunks_half : ∃ s,
    Machine.exec (step (halfFailing.env twoChunks watched))
      (begin_ (halfFailing.env twoChunks watched) [(10, 14), (15, 19)] Disk.empty)
      [.launch, .launch, .task 0 .acquire, .task 1 .acquire, .task 0 (.fetched (.asStored _)),
        .task 0 .proceed] = some s ∧
    Tells Reference.readers Reference.alloy s.shared.output.disk [cancelledLog 10 0 [⟨7⟩]] (10, 14)
      .orderCancelled := by
  obtain ⟨s, run, readable⟩ : ∃ s,
      Machine.exec (step (halfFailing.env twoChunks watched))
        (begin_ (halfFailing.env twoChunks watched) [(10, 14), (15, 19)] Disk.empty)
        [.launch, .launch, .task 0 .acquire, .task 1 .acquire, .task 0 (.fetched (.asStored _)),
          .task 0 .proceed] = some s ∧
      (s.shared.output.disk.table? (chunkPath "OrderCancelled" (10, 14))).isSome = true :=
    ⟨_, rfl, rfl⟩
  have undo : Reference.readers.Undo (halfFailing.env twoChunks watched).alloy := Reference.undo
  rw [Disk.table?] at readable
  rcases (files_tell_chunks undo run).1 (chunkPath "OrderCancelled" (10, 14)) with
    same | ⟨chunk, -, kind, path, ⟨_, unfinished⟩ | ⟨logs, fetched, tells⟩⟩
  · rw [same] at readable
    cases readable
  · rw [unfinished] at readable
    cases readable
  · obtain ⟨name, rfl⟩ := chunkPath_inj path
    obtain rfl : EventType.orderCancelled = kind := EventType.name_injective name
    obtain rfl := Except.ok.inj fetched
    exact ⟨s, run, tells⟩

end Example

end Backfill

end PolymarketIndexer
