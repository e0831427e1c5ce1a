import PolymarketIndexer.Backfill.Archive
import PolymarketIndexer.Frontfill.Archive

/-! # Repairing a crash by a backfill

A live run dies between two calls of its sink, and a backfill is run into the same directory. The
files that could be read stay as they are, and what the crash lost is in the files of the chunks it
lies in.
-/

namespace PolymarketIndexer

open Frontfill Backfill ParquetStorage

section Parts

variable {readers : TextReaders} {alloy : Alloy} {disk disk' : Disk}

theorem mem_storedLogs {log : Log} {logs : List Log} {stored : StoredLog} (member : log ∈ logs)
    (is : StoredLog.ofLog alloy log = some stored) : stored ∈ storedLogs alloy stored.kind logs :=
  List.mem_filter.mpr ⟨List.mem_filterMap.mpr ⟨log, member, is⟩, decide_eq_true rfl⟩

theorem tells_mem {logs : List Log} {chunk : Chunk} {log : Log} {stored : StoredLog}
    (tells : Tells readers alloy disk logs chunk stored.kind) (member : log ∈ logs)
    (is : StoredLog.ofLog alloy log = some stored) :
    some stored ∈ readers.readFile disk (chunkPath stored.kind.name chunk) := by
  obtain ⟨told, -, read, perm, -⟩ := tells
  rw [read]
  exact List.mem_map_of_mem (perm.mem_iff.mpr (mem_storedLogs member is))

/-- A readable file of a live run is not a chunk's. -/
theorem readable_name {calls : List SinkCall} {t : ParquetSink} {E name : String} {table : Table}
    (done : (perform calls).run fresh = (.ok (), t)) (legible : Legible Disk.empty E t)
    (readable : t.disk.table? { eventType := E, fileName := name } = some table) (chunk : Chunk) :
    chunkFileName chunk.1 chunk.2 ≠ name := by
  have closed := (legible.readable name).mpr (by rw [readable]; rfl)
  obtain ⟨writer, member, rfl⟩ := List.mem_map.mp closed
  have used : writer.path ∈ paths E t :=
    List.mem_map_of_mem (List.mem_append_left _ member)
  rw [paths_openings done] at used
  obtain ⟨opening, -, same⟩ := List.mem_map.mp used
  rw [← same]
  exact (setFileName_ne_chunkFileName _ _ _ _).symm

end Parts

section Run

variable {readers : TextReaders} {env : Env} {config : FrontfillConfig} {s t : LiveState}
  {inputs : List (Frontfill.Input ParquetIo)} {plan : List Chunk} {final : Backfill.State}
  {schedule : List Backfill.Input}

/-- A live run that started on an empty directory dies between two calls of its sink, and a backfill
into its directory returns `Ok`, with a provider that answers again what it has streamed. Then the
files of the live run that can be read are as they were, and each received log can be read from some
file if it was settled before the crash or its block is in the chunks of the backfill. -/
theorem crash_repaired (undo : readers.Undo env.alloy) {runtime : Except String FrontfillMetrics}
    (start : launch config (.ok fresh) runtime = .ok s)
    (died : Machine.exec (Frontfill.step config env.alloy) s inputs = some t)
    (running : t.phase.result? = none) (room : t.rotations < 2 ^ 64)
    (repair : Machine.exec (Backfill.step env) (begin_ env plan t.sink.disk) schedule = some final)
    (ok : final.returned = some (.ok ()))
    (again : ∀ log ∈ t.received, ∀ block, log.blockNumber = some block → ∀ chunk ∈ plan,
      InChunk block chunk → ∀ logs, env.getLogs chunk = .ok logs → log ∈ logs) :
    (∀ path table, t.sink.disk.table? path = some table →
      final.shared.output.disk.table? path = some table) ∧
    ∃ done, done <+: t.received ∧
      (done.filterMap (StoredLog.ofLog env.alloy)).length + (recentCalls t.sinkCalls).length =
        t.written.length ∧
      ∀ log ∈ t.received, ∀ stored, StoredLog.ofLog env.alloy log = some stored →
        (log ∈ done ∨ ∃ chunk ∈ plan, InChunk stored.blockNumber chunk) →
        ∃ name, some stored ∈ readers.readFile final.shared.output.disk
          { eventType := stored.kind.name, fileName := name } := by
  have recorded := run_recorded start died (.inl running)
  have ingested : Ingested env.alloy t := @run_ingested _ _ config env.alloy _ _ _ _ _ _ start died
  obtain ⟨done, all, before, part, -, -, fine, settled, -⟩ :=
    settled_prefix ingested (run_heard start died) (run_judged start died)
  have settledFine := fun log member => fine log (before.subset member)
  have legible := run_settled start died (.inl running) room
  have kept : ∀ path table, t.sink.disk.table? path = some table →
      final.shared.output.disk.table? path = some table := by
    rintro ⟨E, name⟩ table readable
    rcases path_outcome undo repair ⟨E, name⟩ with same | ⟨chunk, -, kind, path, -⟩
    · rw [Disk.table?, same]
      exact readable
    · have named := (Path.mk.inj path).2
      exact absurd named.symm (readable_name recorded
        (legible E).1 readable chunk)
  refine ⟨kept, done, before.trans part, settled_length undo settledFine settled, ?_⟩
  rintro log received stored is (early | ⟨chunk, inPlan, inChunk⟩)
  · obtain ⟨own, typed, held⟩ := legible stored.kind.name
    obtain ⟨names, -, readable, rows, -⟩ := told_files undo own typed settledFine held settled
    have told := rows.mem_iff.mpr (List.mem_map_of_mem (mem_storedLogs early is))
    obtain ⟨name, named, read⟩ := List.mem_flatMap.mp told
    refine ⟨name, ?_⟩
    obtain ⟨table, found⟩ := Option.isSome_iff_exists.mp ((readable name).mp named)
    rw [TextReaders.readFile, found] at read
    rw [TextReaders.readFile, kept _ _ found]
    exact read
  · obtain ⟨logs, answered, tells⟩ := returned_tells undo repair ok inPlan
    have member :=
      again log received _ (ofLog_decodes undo is).2.1 chunk inPlan inChunk logs answered
    have own := tells stored.kind
    rw [if_neg (List.ne_nil_of_mem (mem_storedLogs member is))] at own
    exact ⟨chunkFileName chunk.1 chunk.2, tells_mem own member is⟩

end Run

section Example

/-- The provider has the log that a crash loses. -/
def providing2000 : Env := { halfFailing.env twoChunks watched with
  getLogs := fun _ => .ok [cancelled 2000 0]
  fileIo := fun _ _ => fileOk }

/-- The second of two logs is lost in the crash, and fetched again. -/
theorem crash_repaired_second : ∃ (t : LiveState) (final : Backfill.State),
    live (connecting ++ (ingesting (cancelled 10 0) ++
      [.next (some (cancelled 2000 0)), .lock, .sink sinkOk, .sink sinkOk])) = some t ∧
    Machine.exec (Backfill.step providing2000) (begin_ providing2000 [(2000, 2004)] t.sink.disk)
      [.launch, .task 0 .acquire, .task 0 (.fetched (.asStored _)), .task 0 .proceed,
        .task 0 .proceed, .complete] = some final ∧
    ∃ stored name, StoredLog.ofLog Reference.alloy (cancelled 2000 0) = some stored ∧
      some stored ∈ Reference.readers.readFile final.shared.output.disk
        { eventType := stored.kind.name, fileName := name } := by
  have returns : (live (connecting ++ (ingesting (cancelled 10 0) ++
      [.next (some (cancelled 2000 0)), .lock, .sink sinkOk, .sink sinkOk]))).isSome := by
    rw [live_connecting]
    rfl
  obtain ⟨t, run⟩ := Option.isSome_iff_exists.mp returns
  have heard := run
  rw [live_connecting] at heard
  have phase : t.phase = .selecting none := seen State.phase heard rfl
  have rotations : t.rotations = 1 := seen State.rotations heard rfl
  have received : t.received = [cancelled 10 0, cancelled 2000 0] := seen State.received heard rfl
  obtain ⟨final, repair, ok⟩ : ∃ final, Machine.exec (Backfill.step providing2000)
      (begin_ providing2000 [(2000, 2004)] t.sink.disk)
      [.launch, .task 0 .acquire, .task 0 (.fetched (.asStored _)), .task 0 .proceed,
        .task 0 .proceed, .complete] = some final ∧ final.returned = some (.ok ()) :=
    ⟨_, rfl, rfl⟩
  have undo : Reference.readers.Undo providing2000.alloy := Reference.undo
  obtain ⟨-, done, -, -, told⟩ := crash_repaired undo liveStart_launched run
    (by rw [phase]; rfl) (by rw [rotations]; decide) repair ok (by
      rw [received]
      intro log member block isBlock chunk inPlan inChunk logs answered
      obtain rfl := Except.ok.inj answered
      obtain rfl := List.mem_singleton.mp inPlan
      rcases List.mem_pair.mp member with rfl | rfl
      · obtain rfl := Option.some.inj isBlock
        exact absurd inChunk (by decide)
      · exact List.mem_singleton.mpr rfl)
  obtain ⟨stored, is, block⟩ : ∃ stored, StoredLog.ofLog Reference.alloy (cancelled 2000 0) =
      some stored ∧ stored.blockNumber = 2000 := ⟨_, rfl, rfl⟩
  obtain ⟨name, read⟩ := told (cancelled 2000 0) (by rw [received]; simp) stored is
    (.inr ⟨(2000, 2004), List.mem_singleton.mpr rfl, by rw [block]; decide⟩)
  exact ⟨t, final, run, repair, stored, name, is, read⟩

end Example

end PolymarketIndexer
