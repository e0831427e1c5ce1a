import PolymarketIndexer.Storage.Parquet

/-! # What the sink's calls do

One lemma for each call says everything a successful run of it changes, and one says
what a failed write can leave behind. Seen for one event type, the sink is a log
kept in segments: a write appends to the open segment and closing cuts the log.
-/

namespace PolymarketIndexer.ParquetStorage

open Unordered

/-- The path a writer opened now would get. -/
def newPath (io : WriteIo) (eventType : String) (sink : ParquetSink) : Path :=
  { eventType := eventType, fileName := setFileName io.timestampMillis sink.storage.fileSetId }

/-- Directories, files and writers can be created. -/
structure WriteIo.Opens (io : WriteIo) : Prop where
  createDirAll : io.createDirAll = .ok ()
  createFile : io.createFile = .ok ()
  tryNewWriter : io.tryNewWriter = .ok ()

section Stages

variable {io : WriteIo} {eventType : String} {sink t : ParquetSink}

theorem getOrCreateSchema_ok {columns : List String} {schema : Schema}
    (h : (getOrCreateSchema eventType columns).run sink = (.ok schema, t)) :
    (sink.storage.schemas.lookup eventType = some schema ∧
        schemaNames schema = expectedSchemaNames columns ∧ t = sink) ∨
      (sink.storage.schemas.lookup eventType = none ∧ schema = schemaFor columns ∧
        t = { sink with storage.schemas := sink.storage.schemas.insert eventType schema }) := by
  rw [getOrCreateSchema, Attempt.run_bind_ok (Attempt.run_get sink)] at h
  cases found : sink.storage.schemas.lookup eventType with
  | some cached =>
      simp only [found] at h
      split at h
      · simp at h
      · rename_i same
        simp only [Attempt.run_pure, Prod.mk.injEq, Except.ok.injEq] at h
        obtain ⟨rfl, rfl⟩ := h
        exact .inl ⟨rfl, (not_not.mp same).symm, rfl⟩
  | none =>
      simp only [found] at h
      rw [Attempt.run_bind_ok (Attempt.run_modify _ sink)] at h
      simp only [Attempt.run_pure, Prod.mk.injEq, Except.ok.injEq] at h
      obtain ⟨rfl, rfl⟩ := h
      exact .inr ⟨rfl, rfl, rfl⟩

theorem getOrCreateSchema_error {columns : List String} {error : String}
    (h : (getOrCreateSchema eventType columns).run sink = (.error error, t)) :
    (∃ schema, sink.storage.schemas.lookup eventType = some schema ∧
      expectedSchemaNames columns ≠ schemaNames schema) ∧ t = sink := by
  rw [getOrCreateSchema, Attempt.run_bind_ok (Attempt.run_get sink)] at h
  cases found : sink.storage.schemas.lookup eventType with
  | some cached =>
      simp only [found] at h
      split at h
      · rename_i differs
        simp only [Attempt.run_fail, Prod.mk.injEq] at h
        exact ⟨⟨cached, rfl, differs⟩, h.2.symm⟩
      · simp at h
  | none =>
      simp only [found] at h
      rw [Attempt.run_bind_ok (Attempt.run_modify _ sink)] at h
      simp at h

theorem ensureDirectory_keeps {r : Except String Unit}
    (h : (ensureDirectory io eventType).run sink = (r, t)) :
    t.storage = sink.storage ∧ t.closed = sink.closed ∧ t.disk.file = sink.disk.file := by
  rw [ensureDirectory, Attempt.run_bind_ok (Attempt.run_get sink)] at h
  split at h
  · cases made : io.createDirAll with
    | error e =>
        rw [made, Attempt.run_bind_error (Attempt.run_answer _ sink)] at h
        obtain ⟨-, rfl⟩ := Prod.mk.inj h
        exact ⟨rfl, rfl, rfl⟩
    | ok _ =>
        rw [made, Attempt.run_bind_ok (Attempt.run_answer _ sink), Attempt.run_modify] at h
        obtain ⟨-, rfl⟩ := Prod.mk.inj h
        exact ⟨rfl, rfl, rfl⟩
  · obtain ⟨-, rfl⟩ := Prod.mk.inj h
    exact ⟨rfl, rfl, rfl⟩

theorem ensureWriter_ok {schema : Schema}
    (h : (ensureWriter io eventType schema).run sink = (.ok (), t)) :
    ((∃ writer, sink.storage.writers.lookup eventType = some writer) ∧ t = sink) ∨
      (sink.storage.writers.lookup eventType = none ∧
        t = { sink with
          storage.writers := sink.storage.writers.insert eventType
            { path := newPath io eventType sink, schema := schema, rows := [] }
          disk := sink.disk.create (newPath io eventType sink) io.flushed }) := by
  rw [ensureWriter, Attempt.run_bind_ok (Attempt.run_get sink)] at h
  cases found : sink.storage.writers.lookup eventType with
  | some writer =>
      simp only [found, Option.isNone_some, Bool.false_eq_true, if_false] at h
      obtain ⟨-, rfl⟩ := Prod.mk.inj h
      exact .inl ⟨⟨writer, rfl⟩, rfl⟩
  | none =>
      simp only [found, Option.isNone_none, if_true] at h
      obtain ⟨_, u, created, h⟩ := Attempt.bind_ok h
      obtain ⟨-, rfl⟩ := Prod.mk.inj created
      rw [Attempt.run_bind_ok (Attempt.run_modify _ sink)] at h
      obtain ⟨_, u, made, h⟩ := Attempt.bind_ok h
      obtain ⟨-, rfl⟩ := Prod.mk.inj made
      obtain ⟨-, rfl⟩ := Prod.mk.inj h
      exact .inr ⟨rfl, rfl⟩

theorem ensureWriter_error {schema : Schema} {error : String}
    (h : (ensureWriter io eventType schema).run sink = (.error error, t)) :
    t.storage = sink.storage ∧ t.closed = sink.closed := by
  rw [ensureWriter, Attempt.run_bind_ok (Attempt.run_get sink)] at h
  cases found : sink.storage.writers.lookup eventType with
  | some writer =>
      simp only [found, Option.isNone_some, Bool.false_eq_true, if_false] at h
      cases h
  | none =>
      simp only [found, Option.isNone_none, if_true] at h
      rcases Attempt.bind_error h with created | ⟨_, u, created, h⟩
      · obtain ⟨-, rfl⟩ := Prod.mk.inj created
        exact ⟨rfl, rfl⟩
      · obtain ⟨-, rfl⟩ := Prod.mk.inj created
        rw [Attempt.run_bind_ok (Attempt.run_modify _ sink)] at h
        rcases Attempt.bind_error h with made | ⟨_, u, made, h⟩
        · obtain ⟨-, rfl⟩ := Prod.mk.inj made
          exact ⟨rfl, rfl⟩
        · cases h

/-- Whatever its outcome, it creates the file of a new writer at most. -/
theorem ensureWriter_file {schema : Schema} {r : Except String Unit}
    (h : (ensureWriter io eventType schema).run sink = (r, t)) :
    t.closed = sink.closed ∧ (t.disk.file = sink.disk.file ∨
      (sink.storage.writers.lookup eventType = none ∧
        t.disk = sink.disk.create (newPath io eventType sink) io.flushed)) := by
  rw [ensureWriter, Attempt.run_bind_ok (Attempt.run_get sink)] at h
  cases found : sink.storage.writers.lookup eventType with
  | some writer =>
      simp only [found, Option.isNone_some, Bool.false_eq_true, if_false] at h
      obtain ⟨-, rfl⟩ := Prod.mk.inj h
      exact ⟨rfl, .inl rfl⟩
  | none =>
      simp only [found, Option.isNone_none, if_true] at h
      cases created : io.createFile with
      | error error =>
          rw [created, Attempt.run_bind_error (Attempt.run_answer _ sink)] at h
          obtain ⟨-, rfl⟩ := Prod.mk.inj h
          exact ⟨rfl, .inl rfl⟩
      | ok =>
          rw [created, Attempt.run_bind_ok (Attempt.run_answer _ sink),
            Attempt.run_bind_ok (Attempt.run_modify _ sink)] at h
          cases made : io.tryNewWriter with
          | error error =>
              rw [made, Attempt.run_bind_error (Attempt.run_answer _ _)] at h
              obtain ⟨-, rfl⟩ := Prod.mk.inj h
              exact ⟨rfl, .inr ⟨rfl, rfl⟩⟩
          | ok =>
              rw [made, Attempt.run_bind_ok (Attempt.run_answer _ _), Attempt.run_modify] at h
              obtain ⟨-, rfl⟩ := Prod.mk.inj h
              exact ⟨rfl, .inr ⟨rfl, rfl⟩⟩

theorem ensureDirectory_opens (opens : WriteIo.Opens io) (E : String) (sink : ParquetSink) :
    ∃ t, (ensureDirectory io E).run sink = (.ok (), t) := by
  rw [ensureDirectory, Attempt.run_bind_ok (Attempt.run_get sink), opens.createDirAll]
  split
  · exact ⟨_, rfl⟩
  · exact ⟨_, rfl⟩

theorem ensureWriter_opens (opens : WriteIo.Opens io) (E : String) (schema : Schema)
    (sink : ParquetSink) : ∃ t, (ensureWriter io E schema).run sink = (.ok (), t) := by
  rw [ensureWriter, Attempt.run_bind_ok (Attempt.run_get sink), opens.createFile,
    opens.tryNewWriter]
  simp only
  split
  · exact ⟨_, rfl⟩
  · exact ⟨_, rfl⟩

end Stages

/-- The columns of a call fit any schema with the call's names. -/
theorem tryNew_arrays (call : WriteCall) :
    ∃ batch, RecordBatch.tryNew (schemaFor (call.columns.map Prod.fst)) (arrays call) = .ok batch ∧
      batch.rows = [call.row] := by
  have built := RecordBatch.tryNew_columns (ρ := Unit)
    (⟨"event_type", .utf8, false⟩, fun _ => .utf8 call.eventType)
    ((⟨"block_number", .uint64, false⟩, fun _ => .uint64 call.blockNumber) ::
      (⟨"transaction_hash", .utf8, false⟩, fun _ => .utf8 call.txHash) ::
      (⟨"log_index", .uint64, false⟩, fun _ => .uint64 call.logIndex) ::
      call.columns.map (fun column => (⟨column.1, .utf8, false⟩, fun _ => .utf8 column.2)))
    [()] (by
      intro c member r
      simp only [List.mem_cons, List.mem_map] at member
      rcases member with rfl | rfl | rfl | rfl | ⟨column, -, rfl⟩ <;> rfl)
  obtain ⟨batch, made, rows⟩ := built
  refine ⟨batch, ?_, ?_⟩
  · rw [← made]
    simp [schemaFor, baseFields, arrays, stringArray, uint64Array, Function.comp_def]
  · rw [rows]
    simp [WriteCall.row, Function.comp_def]

theorem arrays_rows {schema : Schema} {call : WriteCall} {batch : RecordBatch}
    (h : RecordBatch.tryNew schema (arrays call) = .ok batch) : batch.rows = [call.row] := by
  obtain ⟨batch', made, rows⟩ := tryNew_arrays call
  rw [RecordBatch.tryNew_eq made] at rows
  rw [RecordBatch.tryNew_eq h, ← rows]
  rfl

/-- What getting the schema of a write does to the cache. -/
structure Caches (call : WriteCall) (schema : Schema) (sink t : ParquetSink) : Prop where
  others : ∀ E, E ≠ call.eventType →
    t.storage.schemas.lookup E = sink.storage.schemas.lookup E
  own : t.storage.schemas.lookup call.eventType = some schema
  names : schemaNames schema = expectedSchemaNames (call.columns.map Prod.fst)
  source : sink.storage.schemas.lookup call.eventType = some schema ∨
    (sink.storage.schemas.lookup call.eventType = none ∧
      schema = schemaFor (call.columns.map Prod.fst))

/-- Getting the schema touches the cache only. -/
theorem getOrCreateSchema_caches {call : WriteCall} {schema : Schema} {sink t : ParquetSink}
    (h : (getOrCreateSchema call.eventType (call.columns.map Prod.fst)).run sink =
      (.ok schema, t)) :
    Caches call schema sink t ∧ t.storage.writers = sink.storage.writers ∧
      t.closed = sink.closed ∧ t.disk = sink.disk ∧
      t.storage.fileSetId = sink.storage.fileSetId := by
  rcases getOrCreateSchema_ok h with ⟨found, names, rfl⟩ | ⟨absent, made, rfl⟩
  · exact ⟨⟨fun _ _ => rfl, found, names, .inl found⟩, rfl, rfl, rfl, rfl⟩
  · refine ⟨⟨fun E other => AList.lookup_insert_ne other, AList.lookup_insert _, ?_,
      .inr ⟨absent, made⟩⟩, rfl, rfl, rfl, rfl⟩
    rw [made, schemaNames_schemaFor]

/-- Everything a successful write changes. -/
structure Written (io : WriteIo) (call : WriteCall) (sink t : ParquetSink) : Prop where
  closed : t.closed = sink.closed
  fileSetId : t.storage.fileSetId = sink.storage.fileSetId
  others : ∀ E, E ≠ call.eventType →
    t.storage.writers.lookup E = sink.storage.writers.lookup E ∧
      t.storage.schemas.lookup E = sink.storage.schemas.lookup E
  own : ∃ schema, t.storage.schemas.lookup call.eventType = some schema ∧
    schemaNames schema = expectedSchemaNames (call.columns.map Prod.fst) ∧
    (sink.storage.schemas.lookup call.eventType = some schema ∨
      (sink.storage.schemas.lookup call.eventType = none ∧
        schema = schemaFor (call.columns.map Prod.fst))) ∧
    ((∃ writer, sink.storage.writers.lookup call.eventType = some writer ∧
        t.storage.writers.lookup call.eventType =
          some { writer with rows := writer.rows ++ [call.row] } ∧
        t.disk.file = sink.disk.file) ∨
      (sink.storage.writers.lookup call.eventType = none ∧
        t.storage.writers.lookup call.eventType =
          some { path := newPath io call.eventType sink, schema := schema, rows := [call.row] } ∧
        t.disk.file = (sink.disk.create (newPath io call.eventType sink) io.flushed).file))

theorem create_congr {disk disk' : Disk} (h : disk.file = disk'.file) (path : Path)
    (flushed : List UInt8) : (disk.create path flushed).file = (disk'.create path flushed).file := by
  simp only [Disk.create, Disk.put, h]

theorem writeEvent_ok {io : WriteIo} {call : WriteCall} {sink t : ParquetSink}
    (h : (writeEvent io call).run sink = (.ok (), t)) : Written io call sink t := by
  obtain ⟨schema, s₁, cached, h⟩ := Attempt.bind_ok h
  obtain ⟨_, s₂, inDirectory, h⟩ := Attempt.bind_ok h
  obtain ⟨_, s₃, opened, h⟩ := Attempt.bind_ok h
  obtain ⟨_, s₄, allowed, h⟩ := Attempt.bind_ok h
  obtain ⟨batch, s₅, built, h⟩ := Attempt.bind_ok h
  obtain ⟨_, s₆, written, h⟩ := Attempt.bind_ok h
  obtain ⟨-, rfl⟩ := Prod.mk.inj allowed
  obtain ⟨fits, rfl⟩ := Prod.mk.inj built
  obtain ⟨-, rfl⟩ := Prod.mk.inj written
  obtain ⟨-, rfl⟩ := Prod.mk.inj h
  have rows := arrays_rows fits
  obtain ⟨caches, writers, closed, disk, fileSetId⟩ := getOrCreateSchema_caches cached
  obtain ⟨storage₂, closed₂, file₂⟩ := ensureDirectory_keeps inDirectory
  rw [disk] at file₂
  have path : newPath io call.eventType s₂ = newPath io call.eventType sink := by
    simp only [newPath, storage₂, fileSetId]
  rcases ensureWriter_ok opened with ⟨⟨writer, found⟩, rfl⟩ | ⟨absent, rfl⟩
  · have found₀ : sink.storage.writers.lookup call.eventType = some writer := by
      rw [← writers, ← storage₂, found]
    simp only [appendBatch, found, rows]
    exact {
      closed := by rw [closed₂, closed]
      fileSetId := by rw [storage₂, fileSetId]
      others := fun E other => ⟨by rw [AList.lookup_insert_ne other, storage₂, writers],
        by rw [storage₂, caches.others E other]⟩
      own := ⟨schema, by rw [storage₂, caches.own], caches.names, caches.source,
        .inl ⟨writer, found₀, AList.lookup_insert _, file₂⟩⟩ }
  · have absent₀ : sink.storage.writers.lookup call.eventType = none := by
      rw [← writers, ← storage₂, absent]
    simp only [appendBatch, AList.lookup_insert, rows, List.nil_append]
    exact {
      closed := by rw [closed₂, closed]
      fileSetId := by rw [storage₂, fileSetId]
      others := fun E other => ⟨by
          rw [AList.lookup_insert_ne other, AList.lookup_insert_ne other, storage₂, writers],
        by rw [storage₂, caches.others E other]⟩
      own := ⟨schema, by rw [storage₂, caches.own], caches.names, caches.source,
        .inr ⟨absent₀, by rw [AList.lookup_insert, path], by
          rw [path]; exact create_congr file₂ _ _⟩⟩ }

/-- The last three stages of a write fail before they change anything. -/
theorem appending_failed {io : WriteIo} {call : WriteCall} {schema : Schema} {sink t : ParquetSink}
    {error : String}
    (h : (do
      .answer io.tryNewBatch
      let batch ← .answer (RecordBatch.tryNew schema (arrays call))
      .answer io.write
      .modify (appendBatch call.eventType batch) : Attempt ParquetSink Unit).run sink =
        (.error error, t)) : t = sink := by
  rcases Attempt.answer_bind_error h with ⟨-, same⟩ | ⟨_, -, h⟩
  · exact same
  rcases Attempt.answer_bind_error h with ⟨-, same⟩ | ⟨batch, -, h⟩
  · exact same
  rcases Attempt.answer_bind_error h with ⟨-, same⟩ | ⟨_, -, h⟩
  · exact same
  · cases h

/-- What a write that got its schema and failed later leaves behind: no row, perhaps the schema,
perhaps a new writer without rows. -/
structure Abandoned (io : WriteIo) (call : WriteCall) (sink t : ParquetSink) : Prop where
  closed : t.closed = sink.closed
  fileSetId : t.storage.fileSetId = sink.storage.fileSetId
  others : ∀ E, E ≠ call.eventType →
    t.storage.writers.lookup E = sink.storage.writers.lookup E
  own : ∃ schema, Caches call schema sink t ∧
    (t.storage.writers.lookup call.eventType = sink.storage.writers.lookup call.eventType ∨
      (sink.storage.writers.lookup call.eventType = none ∧
        t.storage.writers.lookup call.eventType =
          some { path := newPath io call.eventType sink, schema := schema, rows := [] }))

/-- A failed write was rejected for its schema and changed nothing, or it was abandoned. -/
theorem writeEvent_failed {io : WriteIo} {call : WriteCall} {sink t : ParquetSink} {error : String}
    (h : (writeEvent io call).run sink = (.error error, t)) :
    ((∃ schema, sink.storage.schemas.lookup call.eventType = some schema ∧
        expectedSchemaNames (call.columns.map Prod.fst) ≠ schemaNames schema) ∧ t = sink) ∨
      Abandoned io call sink t := by
  rcases Attempt.bind_error h with rejected | ⟨schema, s₁, cached, h⟩
  · exact .inl (getOrCreateSchema_error rejected)
  right
  obtain ⟨caches, writers, closed, -, fileSetId⟩ := getOrCreateSchema_caches cached
  have stays : ∀ u : ParquetSink, u.storage = s₁.storage → u.closed = s₁.closed →
      Abandoned io call sink u := by
    intro u storage closed'
    refine ⟨by rw [closed', closed], by rw [storage, fileSetId], fun E _ => by
      rw [storage, writers], schema, ?_, .inl (by rw [storage, writers])⟩
    exact ⟨fun E other => by rw [storage, caches.others E other], by rw [storage, caches.own],
      caches.names, caches.source⟩
  rcases Attempt.bind_error h with failed | ⟨_, s₂, inDirectory, h⟩
  · obtain ⟨storage₂, closed₂, -⟩ := ensureDirectory_keeps failed
    exact stays t storage₂ closed₂
  obtain ⟨storage₂, closed₂, -⟩ := ensureDirectory_keeps inDirectory
  rcases Attempt.bind_error h with failed | ⟨_, s₃, opened, h⟩
  · obtain ⟨storage₃, closed₃⟩ := ensureWriter_error failed
    exact stays t (by rw [storage₃, storage₂]) (by rw [closed₃, closed₂])
  obtain rfl := appending_failed h
  rcases ensureWriter_ok opened with ⟨-, rfl⟩ | ⟨absent, rfl⟩
  · exact stays t storage₂ closed₂
  · have path : newPath io call.eventType s₂ = newPath io call.eventType sink := by
      simp only [newPath, storage₂, fileSetId]
    refine ⟨by rw [closed₂, closed], by rw [storage₂, fileSetId], fun E other => ?_, schema,
      ⟨fun E other => ?_, ?_, caches.names, caches.source⟩, .inr ⟨?_, ?_⟩⟩
    · rw [AList.lookup_insert_ne other, storage₂, writers]
    · rw [storage₂, caches.others E other]
    · rw [storage₂, caches.own]
    · rw [← writers, ← storage₂, absent]
    · rw [AList.lookup_insert, path]

/-- A failed write creates the file of a new writer at most. -/
theorem failed_write_file {io : WriteIo} {call : WriteCall} {sink t : ParquetSink} {error : String}
    (h : (writeEvent io call).run sink = (.error error, t)) :
    t.closed = sink.closed ∧ (t.disk.file = sink.disk.file ∨
      (sink.storage.writers.lookup call.eventType = none ∧
        t.disk.file = (sink.disk.create (newPath io call.eventType sink) io.flushed).file)) := by
  rcases Attempt.bind_error h with rejected | ⟨schema, s₁, cached, h⟩
  · obtain ⟨-, rfl⟩ := getOrCreateSchema_error rejected
    exact ⟨rfl, .inl rfl⟩
  obtain ⟨-, writers, closed, disk, fileSetId⟩ := getOrCreateSchema_caches cached
  rcases Attempt.bind_error h with failed | ⟨_, s₂, inDirectory, h⟩
  · obtain ⟨-, closed₂, file₂⟩ := ensureDirectory_keeps failed
    exact ⟨closed₂.trans closed, .inl (by rw [file₂, disk])⟩
  obtain ⟨storage₂, closed₂, file₂⟩ := ensureDirectory_keeps inDirectory
  have opened : ∀ r, (ensureWriter io call.eventType schema).run s₂ = (r, t) →
      t.closed = sink.closed ∧ (t.disk.file = sink.disk.file ∨
        (sink.storage.writers.lookup call.eventType = none ∧
          t.disk.file = (sink.disk.create (newPath io call.eventType sink) io.flushed).file)) := by
    intro r opened
    have path : newPath io call.eventType s₂ = newPath io call.eventType sink := by
      simp only [newPath, storage₂, fileSetId]
    rw [disk] at file₂
    obtain ⟨closed₃, file₃⟩ := ensureWriter_file opened
    refine ⟨by rw [closed₃, closed₂, closed], ?_⟩
    rcases file₃ with same | ⟨absent, created⟩
    · exact .inl (same.trans file₂)
    · right
      refine ⟨by rw [← writers, ← storage₂, absent], ?_⟩
      rw [created, path]
      exact create_congr file₂ _ _
  rcases Attempt.bind_error h with failed | ⟨_, s₃, made, h⟩
  · exact opened _ failed
  · obtain rfl := appending_failed h
    exact opened _ made

/-- The writers closed by a run of the drain loop: all of them, or those before the first
that fails. -/
theorem closeEach_run {io : CloseIo} {entries : List ((_ : String) × ArrowWriter)}
    {sink t : ParquetSink} {r : Except String Unit}
    (h : (closeEach io entries).run sink = (r, t)) :
    ∃ done rest, entries = done ++ rest ∧ (∀ entry ∈ done, io.close entry.1 = .ok ()) ∧
      t = done.foldl (fun s entry => finish s entry.2) sink ∧
      match rest with
      | [] => r = .ok ()
      | entry :: _ => ∃ error, io.close entry.1 = .error error ∧ r = .error error := by
  induction entries generalizing sink with
  | nil =>
      cases h
      exact ⟨[], [], rfl, by simp, rfl, rfl⟩
  | cons entry entries ih =>
      rw [closeEach] at h
      cases answer : io.close entry.1 with
      | error e =>
          rw [answer, Attempt.run_bind_error (Attempt.run_answer _ sink)] at h
          obtain ⟨rfl, rfl⟩ := Prod.mk.inj h
          exact ⟨[], entry :: entries, rfl, by simp, rfl, e, answer, rfl⟩
      | ok _ =>
          rw [answer, Attempt.run_bind_ok (Attempt.run_answer _ sink),
            Attempt.run_bind_ok (Attempt.run_modify _ sink)] at h
          obtain ⟨done, rest, split, answers, state, outcome⟩ := ih h
          refine ⟨entry :: done, rest, by rw [split, List.cons_append], ?_, state, outcome⟩
          intro e member
          rcases List.mem_cons.mp member with rfl | member
          · exact answer
          · exact answers e member

@[simp] theorem foldl_finish_closed (entries : List ((_ : String) × ArrowWriter))
    (sink : ParquetSink) :
    (entries.foldl (fun s entry => finish s entry.2) sink).closed =
      sink.closed ++ entries.map Sigma.snd := by
  induction entries generalizing sink with
  | nil => simp
  | cons entry entries ih =>
      rw [List.foldl_cons, ih]
      simp only [finish, List.map_cons, List.append_assoc, List.singleton_append]

@[simp] theorem foldl_finish_storage (entries : List ((_ : String) × ArrowWriter))
    (sink : ParquetSink) :
    (entries.foldl (fun s entry => finish s entry.2) sink).storage = sink.storage := by
  induction entries generalizing sink with
  | nil => rfl
  | cons entry entries ih => rw [List.foldl_cons, ih]; rfl

/-- A successful close: the writers were closed in the drain order and none is open. -/
theorem closeWriters_ok {io : CloseIo} {sink t : ParquetSink}
    (h : (closeWriters io).run sink = (.ok (), t)) :
    t = (iterate io.order sink.storage.writers).foldl (fun s entry => finish s entry.2)
      { sink with storage.writers := ∅ } := by
  rw [closeWriters, Attempt.run_bind_ok (Attempt.run_get sink),
    Attempt.run_bind_ok (Attempt.run_modify _ sink)] at h
  obtain ⟨done, rest, split, -, state, outcome⟩ := closeEach_run h
  cases rest with
  | nil => rw [split, List.append_nil, state]
  | cons entry rest =>
      obtain ⟨error, -, impossible⟩ := outcome
      cases impossible

/-- When every writer closes, the call succeeds. -/
theorem closeWriters_total {io : CloseIo} (closes : ∀ E, io.close E = .ok ())
    (sink : ParquetSink) : ∃ t, (closeWriters io).run sink = (.ok (), t) := by
  rw [closeWriters, Attempt.run_bind_ok (Attempt.run_get sink),
    Attempt.run_bind_ok (Attempt.run_modify _ sink)]
  generalize ran : (closeEach io _).run _ = result
  obtain ⟨r, t⟩ := result
  obtain ⟨done, rest, -, -, -, outcome⟩ := closeEach_run ran
  cases rest with
  | nil => exact ⟨t, by rw [outcome]⟩
  | cons entry rest =>
      obtain ⟨error, failed, -⟩ := outcome
      cases (closes entry.1).symm.trans failed

theorem rotateWriters_ok {io : CloseIo} {sink t : ParquetSink}
    (h : (rotateWriters io).run sink = (.ok (), t)) :
    ∃ u, (closeWriters io).run sink = (.ok (), u) ∧
      t = { u with storage.fileSetId := U64.saturatingAdd u.storage.fileSetId 1 } := by
  obtain ⟨_, u, closed, h⟩ := Attempt.bind_ok h
  obtain ⟨-, rfl⟩ := Prod.mk.inj h
  exact ⟨u, closed, rfl⟩

end PolymarketIndexer.ParquetStorage
