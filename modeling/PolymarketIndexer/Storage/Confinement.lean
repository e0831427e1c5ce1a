import PolymarketIndexer.Storage.Attempts

/-! # Which files a call can touch

A call to the sink touches files of the current file set only, whether it succeeds or not:
a new file gets the current number, and the writers that a close finishes were opened
under it. Only a rotation that succeeds counts the number up, and no writer is open then.
-/

namespace PolymarketIndexer.ParquetStorage

open Unordered Attempt

/-- A file of a set, for some event type and clock reading. -/
def InSet (id : UInt64) (path : Path) : Prop := ∃ E millis, path = setPath E (millis, id)

/-- The open writers are of the current file set. -/
def Current (sink : ParquetSink) : Prop :=
  ∀ E writer, sink.storage.writers.lookup E = some writer →
    InSet sink.storage.fileSetId writer.path

/-- A sink that kept to the file set `id` and to `mine`: every other file is as in `files`. -/
structure Confined (id : UInt64) (mine : Path → Prop) (files : Path → Option FileContent)
    (sink : ParquetSink) : Prop where
  fileSetId : sink.storage.fileSetId = id
  writers : ∀ E writer, sink.storage.writers.lookup E = some writer → InSet id writer.path
  others : ∀ path, ¬mine path → sink.disk.file path = files path

theorem current_freshOn (disk : Disk) : Current (freshOn disk) := by
  intro E writer lookup
  cases lookup

theorem Current.confined {sink : ParquetSink} (current : Current sink) (mine : Path → Prop) :
    Confined sink.storage.fileSetId mine sink.disk.file sink :=
  ⟨rfl, current, fun _ _ => rfl⟩

theorem newPath_inSet (io : WriteIo) (E : String) (sink : ParquetSink) :
    InSet sink.storage.fileSetId (newPath io E sink) := ⟨E, io.timestampMillis, rfl⟩

section Calls

variable {id : UInt64} {mine : Path → Prop} {files : Path → Option FileContent}

theorem put_others {disk : Disk} {path : Path} (own : mine path)
    (others : ∀ p, ¬mine p → disk.file p = files p) (content : FileContent) :
    ∀ p, ¬mine p → (disk.put path content).file p = files p := by
  intro p outside
  have apart : p ≠ path := by
    rintro rfl
    exact outside own
  rw [Disk.put_file_other _ _ apart, others p outside]

theorem getOrCreateSchema_confined (E : String) (columns : List String) :
    Keeps (Confined id mine files) (getOrCreateSchema E columns) := by
  apply keeps_get_bind
  intro sink confined
  split
  · split
    · exact keeps_fail _
    · exact keeps_pure _
  · refine Keeps.bind (keeps_modify ?_) (fun _ => keeps_pure _)
    exact fun s before => ⟨before.fileSetId, before.writers, before.others⟩

theorem ensureDirectory_confined (io : WriteIo) (E : String) :
    Keeps (Confined id mine files) (ensureDirectory io E) := by
  apply keeps_get_bind
  intro sink confined
  split
  · refine Keeps.bind (keeps_answer _) (fun _ => keeps_modify ?_)
    exact fun s before => ⟨before.fileSetId, before.writers, before.others⟩
  · exact keeps_pure _

theorem ensureWriter_confined {io : WriteIo} {E : String} (schema : Schema)
    (own : mine (setPath E (io.timestampMillis, id))) :
    Keeps (Confined id mine files) (ensureWriter io E schema) := by
  apply keeps_get_bind
  intro sink confined
  have opened : newPath io E sink = setPath E (io.timestampMillis, id) := by
    rw [newPath, confined.fileSetId]
    rfl
  have own : mine (newPath io E sink) := by
    rw [opened]
    exact own
  split
  · refine Keeps.bind (keeps_answer _) (fun _ => Keeps.bind (keeps_modify ?_)
      (fun _ => Keeps.bind (keeps_answer _) (fun _ => keeps_modify ?_)))
    · exact fun s before => ⟨before.fileSetId, before.writers,
        put_others own before.others (.unfinished _)⟩
    · intro s before
      refine ⟨before.fileSetId, ?_, before.others⟩
      intro E' writer lookup
      by_cases same : E' = E
      · subst same
        rw [AList.lookup_insert] at lookup
        obtain rfl := Option.some.inj lookup
        exact ⟨_, _, opened⟩
      · rw [AList.lookup_insert_ne same] at lookup
        exact before.writers E' writer lookup
  · exact keeps_pure _

theorem appendBatch_confined (E : String) (batch : RecordBatch) {sink : ParquetSink}
    (confined : Confined id mine files sink) : Confined id mine files (appendBatch E batch sink) := by
  unfold appendBatch
  split
  · rename_i open_ found
    refine ⟨confined.fileSetId, ?_, confined.others⟩
    intro E' writer lookup
    by_cases same : E' = E
    · subst same
      rw [AList.lookup_insert] at lookup
      obtain rfl := Option.some.inj lookup
      exact confined.writers _ open_ found
    · rw [AList.lookup_insert_ne same] at lookup
      exact confined.writers E' writer lookup
  · exact confined

theorem writeEvent_confined {io : WriteIo} {call : WriteCall}
    (own : mine (setPath call.eventType (io.timestampMillis, id))) :
    Keeps (Confined id mine files) (writeEvent io call) := by
  refine Keeps.bind (getOrCreateSchema_confined _ _) (fun schema => ?_)
  refine Keeps.bind (ensureDirectory_confined io _) (fun _ => ?_)
  refine Keeps.bind (ensureWriter_confined schema own) (fun _ => ?_)
  refine Keeps.bind (keeps_answer _) (fun _ => Keeps.bind (keeps_answer _) (fun batch => ?_))
  exact Keeps.bind (keeps_answer _)
    (fun _ => keeps_modify (fun _ before => appendBatch_confined _ batch before))

theorem closeEach_confined (io : CloseIo) {entries : List ((_ : String) × ArrowWriter)}
    (own : ∀ entry ∈ entries, mine entry.2.path) :
    Keeps (Confined id mine files) (closeEach io entries) := by
  induction entries with
  | nil => exact keeps_pure _
  | cons entry entries ih =>
      refine Keeps.bind (keeps_answer _) (fun _ => Keeps.bind (keeps_modify ?_) (fun _ => ?_))
      · exact fun s before => ⟨before.fileSetId, before.writers,
          put_others (own entry List.mem_cons_self) before.others _⟩
      · exact ih (fun other member => own other (List.mem_cons_of_mem _ member))

theorem closeWriters_confined (io : CloseIo) :
    Keeps (Confined id (InSet id) files) (closeWriters io) := by
  apply keeps_get_bind
  intro sink confined
  refine Keeps.bind (keeps_modify ?_) (fun _ => closeEach_confined io ?_)
  · intro s before
    refine ⟨before.fileSetId, ?_, before.others⟩
    intro E writer lookup
    cases lookup
  · exact fun entry member => confined.writers entry.1 entry.2 (mem_iterate.mp member)

end Calls

/-- What a call does to the current file set: `counts` is whether it starts the next one. -/
structure Touches (counts : Bool) (sink t : ParquetSink) : Prop where
  current : Current t
  fileSetId : t.storage.fileSetId =
    if counts then U64.saturatingAdd sink.storage.fileSetId 1 else sink.storage.fileSetId
  others : ∀ path, ¬InSet sink.storage.fileSetId path → t.disk.file path = sink.disk.file path

section Touches

variable {sink t : ParquetSink} {r : Except String Unit}

theorem Confined.touches (confined : Confined sink.storage.fileSetId
    (InSet sink.storage.fileSetId) sink.disk.file t) : Touches false sink t := by
  refine ⟨?_, confined.fileSetId, confined.others⟩
  intro E writer lookup
  rw [confined.fileSetId]
  exact confined.writers E writer lookup

/-- A write creates the file of a new writer at most. -/
theorem writeEvent_creates {io : WriteIo} {call : WriteCall} (current : Current sink)
    (run : (writeEvent io call).run sink = (r, t)) {path : Path}
    (other : path ≠ newPath io call.eventType sink) : t.disk.file path = sink.disk.file path := by
  have own : newPath io call.eventType sink =
      setPath call.eventType (io.timestampMillis, sink.storage.fileSetId) := rfl
  have confined := @writeEvent_confined _ (· = newPath io call.eventType sink) _ io call own.symm
    sink (current.confined _)
  rw [run] at confined
  exact confined.others path other

theorem writeEvent_touches {io : WriteIo} {call : WriteCall} (current : Current sink)
    (run : (writeEvent io call).run sink = (r, t)) : Touches false sink t := by
  have confined := writeEvent_confined (newPath_inSet io call.eventType sink) sink
    (current.confined _)
  rw [run] at confined
  exact confined.touches

theorem closeWriters_touches {io : CloseIo} (current : Current sink)
    (run : (closeWriters io).run sink = (r, t)) : Touches false sink t := by
  have confined := closeWriters_confined io sink (current.confined _)
  rw [run] at confined
  exact confined.touches

theorem rotateWriters_touches {io : CloseIo} (current : Current sink)
    (run : (rotateWriters io).run sink = (.ok (), t)) : Touches true sink t := by
  obtain ⟨u, closed, rfl⟩ := rotateWriters_ok run
  have touches := closeWriters_touches current closed
  have shut : u.storage.writers = ∅ := by rw [closeWriters_storage closed]
  refine ⟨?_, ?_, touches.others⟩
  · intro E writer lookup
    rw [shut] at lookup
    cases lookup
  · rw [touches.fileSetId]
    rfl

theorem rotateWriters_failed {io : CloseIo} {error : String} (current : Current sink)
    (run : (rotateWriters io).run sink = (.error error, t)) : Touches false sink t := by
  rcases Attempt.bind_error run with failed | ⟨_, u, -, impossible⟩
  · exact closeWriters_touches current failed
  · cases impossible

end Touches

end PolymarketIndexer.ParquetStorage
