import PolymarketIndexer.Storage.FileSets

/-! # Histories with failures

A caller may go on after a failed call, so a history here is any list of calls, whatever
their outcomes. The schemas are cached for the life of the storage while writers come
and go; each writer was opened under the cached schema of its event type, and the
cache only grows. So an event type has one schema in all its files.
-/

namespace PolymarketIndexer.ParquetStorage

open Unordered

/-- The sink after some calls, failed ones included. -/
def after (calls : List SinkCall) (sink : ParquetSink) : ParquetSink :=
  calls.foldl (fun s call => (call.run.run s).2) sink

theorem after_append (past later : List SinkCall) (sink : ParquetSink) :
    after (past ++ later) sink = after later (after past sink) := List.foldl_append

/-- The write that a call gets accepted, if any. -/
def SinkCall.accepted? (sink : ParquetSink) : SinkCall → Option WriteCall
  | .writeEvent io call =>
      match (ParquetStorage.writeEvent io call).run sink with
      | (.ok _, _) => some call
      | (.error _, _) => none
  | .rotateWriters _ => none
  | .closeWriters _ => none

/-- The accepted writes of a history, in order. -/
def acceptedBy : List SinkCall → ParquetSink → List WriteCall
  | [], _ => []
  | call :: calls, sink => (call.accepted? sink).toList ++ acceptedBy calls (call.run.run sink).2

/-- A writer that is open or was closed. -/
def HasWriter (sink : ParquetSink) (writer : ArrowWriter) : Prop :=
  writer ∈ sink.closed ∨ ∃ E, sink.storage.writers.lookup E = some writer

/-- Writers are in their directories and have the cached schema; their rows are accepted writes,
and an accepted write has the columns of the cached schema. -/
structure Coherent (accepted : List WriteCall) (sink : ParquetSink) : Prop where
  keyed : Keyed sink
  typed : ∀ writer, HasWriter sink writer →
    sink.storage.schemas.lookup writer.path.eventType = some writer.schema
  sourced : ∀ writer, HasWriter sink writer → ∀ row ∈ writer.rows,
    ∃ call ∈ accepted, call.eventType = writer.path.eventType ∧ call.row = row
  named : ∀ call ∈ accepted, ∃ schema, sink.storage.schemas.lookup call.eventType = some schema ∧
    schemaNames schema = expectedSchemaNames (call.columns.map Prod.fst)

/-- No schema of the cache is changed or dropped. -/
def Extends (before later : ParquetSink) : Prop :=
  ∀ E schema, before.storage.schemas.lookup E = some schema →
    later.storage.schemas.lookup E = some schema

theorem Extends.refl (sink : ParquetSink) : Extends sink sink := fun _ _ found => found

theorem Extends.trans {a b c : ParquetSink} (first : Extends a b) (second : Extends b c) :
    Extends a c := fun E schema found => second E schema (first E schema found)

theorem coherent_freshOn (disk : Disk) : Coherent [] (freshOn disk) where
  keyed := keyed_freshOn disk
  typed _ has := by
    rcases has with closed | ⟨_, lookup⟩
    · cases closed
    · cases lookup
  sourced _ has := by
    rcases has with closed | ⟨_, lookup⟩
    · cases closed
    · cases lookup
  named _ h := by cases h

section Write

variable {io : WriteIo} {call : WriteCall} {sink t : ParquetSink} {accepted : List WriteCall}

theorem Caches.extends {schema : Schema} (caches : Caches call schema sink t) : Extends sink t := by
  intro E schema' found
  by_cases same : E = call.eventType
  · subst same
    rcases caches.source with before | ⟨absent, -⟩
    · rw [caches.own, ← before, found]
    · cases absent.symm.trans found
  · rw [caches.others E same, found]

theorem Written.caches (written : Written io call sink t) :
    ∃ schema, Caches call schema sink t ∧
      ((∃ writer, sink.storage.writers.lookup call.eventType = some writer ∧
          t.storage.writers.lookup call.eventType =
            some { writer with rows := writer.rows ++ [call.row] }) ∨
        (sink.storage.writers.lookup call.eventType = none ∧
          t.storage.writers.lookup call.eventType =
            some { path := newPath io call.eventType sink, schema := schema, rows := [call.row] })) := by
  obtain ⟨schema, own, names, source, writer⟩ := written.own
  refine ⟨schema, ⟨fun E other => (written.others E other).2, own, names, source⟩, ?_⟩
  rcases writer with ⟨writer, found, appended, -⟩ | ⟨absent, opened, -⟩
  · exact .inl ⟨writer, found, appended⟩
  · exact .inr ⟨absent, opened⟩

/-- Accepted writes are still named by a cache that has grown. -/
theorem Coherent.named_extends (h : Coherent accepted sink) (grown : Extends sink t) :
    ∀ call ∈ accepted, ∃ schema, t.storage.schemas.lookup call.eventType = some schema ∧
      schemaNames schema = expectedSchemaNames (call.columns.map Prod.fst) := by
  intro call member
  obtain ⟨schema, found, names⟩ := h.named call member
  exact ⟨schema, grown _ _ found, names⟩

theorem Written.coherent (written : Written io call sink t) (h : Coherent accepted sink) :
    Extends sink t ∧ Coherent (accepted ++ [call]) t := by
  obtain ⟨schema, caches, own⟩ := written.caches
  have grown := caches.extends
  have keyed := written.keyed h.keyed
  -- a writer is as it was before the call, or the one that was written to
  have kinds : ∀ writer, HasWriter t writer → HasWriter sink writer ∨
      t.storage.writers.lookup call.eventType = some writer := by
    rintro writer (closed | ⟨E, lookup⟩)
    · rw [written.closed] at closed
      exact .inl (.inl closed)
    · by_cases same : E = call.eventType
      · subst same
        exact .inr lookup
      · exact .inl (.inr ⟨E, by rw [← (written.others E same).1, lookup]⟩)
  refine ⟨grown, keyed, ?_, ?_, ?_⟩
  · intro writer has
    rcases kinds writer has with before | current
    · exact grown _ _ (h.typed writer before)
    · rw [keyed _ writer current, caches.own]
      rcases own with ⟨before, found, appended⟩ | ⟨-, opened⟩
      · obtain rfl := Option.some.inj (appended.symm.trans current)
        have cached := h.typed before (.inr ⟨_, found⟩)
        rw [h.keyed _ before found] at cached
        exact congrArg some (Option.some.inj (caches.own.symm.trans (grown _ _ cached)))
      · obtain rfl := Option.some.inj (opened.symm.trans current)
        rfl
  · intro writer has row member
    rcases kinds writer has with before | current
    · obtain ⟨source, isAccepted, directory, same⟩ := h.sourced writer before row member
      exact ⟨source, List.mem_append_left _ isAccepted, directory, same⟩
    · have directory := keyed _ writer current
      rcases own with ⟨before, found, appended⟩ | ⟨-, opened⟩
      · obtain rfl := Option.some.inj (appended.symm.trans current)
        rcases List.mem_append.mp member with old | now
        · obtain ⟨source, isAccepted, directory, same⟩ :=
            h.sourced before (.inr ⟨_, found⟩) row old
          exact ⟨source, List.mem_append_left _ isAccepted, directory, same⟩
        · obtain rfl := List.mem_singleton.mp now
          exact ⟨call, List.mem_append_right _ List.mem_cons_self, directory.symm, rfl⟩
      · obtain rfl := Option.some.inj (opened.symm.trans current)
        obtain rfl := List.mem_singleton.mp member
        exact ⟨call, List.mem_append_right _ List.mem_cons_self, directory.symm, rfl⟩
  · intro call' member
    rcases List.mem_append.mp member with before | now
    · exact h.named_extends grown call' before
    · obtain rfl := List.mem_singleton.mp now
      exact ⟨schema, caches.own, caches.names⟩

theorem Abandoned.coherent (abandoned : Abandoned io call sink t) (h : Coherent accepted sink) :
    Extends sink t ∧ Coherent accepted t := by
  obtain ⟨schema, caches, own⟩ := abandoned.own
  have grown := caches.extends
  -- a writer is as it was before the call, or a new one without rows
  have kinds : ∀ writer, HasWriter t writer → HasWriter sink writer ∨
      writer = { path := newPath io call.eventType sink, schema := schema, rows := [] } := by
    rintro writer (closed | ⟨E, lookup⟩)
    · rw [abandoned.closed] at closed
      exact .inl (.inl closed)
    · by_cases same : E = call.eventType
      · subst same
        rcases own with unchanged | ⟨-, opened⟩
        · exact .inl (.inr ⟨_, by rw [← unchanged, lookup]⟩)
        · exact .inr (Option.some.inj (lookup.symm.trans opened))
      · exact .inl (.inr ⟨E, by rw [← abandoned.others E same, lookup]⟩)
  refine ⟨grown, ?_, ?_, ?_, h.named_extends grown⟩
  · intro E writer lookup
    by_cases same : E = call.eventType
    · subst same
      rcases own with unchanged | ⟨-, opened⟩
      · exact h.keyed _ writer (by rw [← unchanged, lookup])
      · obtain rfl := Option.some.inj (opened.symm.trans lookup)
        rfl
    · exact h.keyed E writer (by rw [← abandoned.others E same, lookup])
  · intro writer has
    rcases kinds writer has with before | rfl
    · exact grown _ _ (h.typed writer before)
    · exact caches.own
  · intro writer has row member
    rcases kinds writer has with before | rfl
    · exact h.sourced writer before row member
    · cases member

end Write

section Close

variable {io : CloseIo} {sink t : ParquetSink} {accepted : List WriteCall}

/-- What a close does, whatever its outcome: some of the open writers were closed. -/
theorem closeWriters_run {r : Except String Unit} (h : (closeWriters io).run sink = (r, t)) :
    ∃ done rest, iterate io.order sink.storage.writers = done ++ rest ∧
      (∀ entry ∈ done, io.close entry.1 = .ok ()) ∧
      t = done.foldl (fun s entry => finish s entry.2) { sink with storage.writers := ∅ } ∧
      match rest with
      | [] => r = .ok ()
      | entry :: _ => ∃ error, io.close entry.1 = .error error ∧ r = .error error := by
  rw [closeWriters, Attempt.run_bind_ok (Attempt.run_get sink),
    Attempt.run_bind_ok (Attempt.run_modify _ sink)] at h
  exact closeEach_run h

theorem closeWriters_storage {r : Except String Unit} (h : (closeWriters io).run sink = (r, t)) :
    t.storage = { sink.storage with writers := ∅ } := by
  obtain ⟨done, rest, -, -, rfl, -⟩ := closeWriters_run h
  rw [foldl_finish_storage]

theorem closeWriters_coherent {r : Except String Unit} (run : (closeWriters io).run sink = (r, t))
    (h : Coherent accepted sink) : Extends sink t ∧ Coherent accepted t := by
  have storage := closeWriters_storage run
  obtain ⟨done, rest, split, -, same, -⟩ := closeWriters_run run
  have grown : Extends sink t := by
    intro E schema found
    rw [storage]
    exact found
  have kinds : ∀ writer, HasWriter t writer → HasWriter sink writer := by
    rintro writer (closed | ⟨E, lookup⟩)
    · rw [same, foldl_finish_closed] at closed
      rcases List.mem_append.mp closed with before | now
      · exact .inl before
      · obtain ⟨⟨E, w⟩, inDone, rfl⟩ := List.mem_map.mp now
        exact .inr ⟨E, mem_iterate.mp (by rw [split]; exact List.mem_append_left _ inDone)⟩
    · rw [storage] at lookup
      cases lookup
  refine ⟨grown, ?_, fun writer has => grown _ _ (h.typed writer (kinds writer has)),
    fun writer has => h.sourced writer (kinds writer has), h.named_extends grown⟩
  intro E writer lookup
  rw [storage] at lookup
  cases lookup

/-- A rotation closes the writers and counts the file set only if that succeeded. -/
theorem rotateWriters_run {r : Except String Unit} (h : (rotateWriters io).run sink = (r, t)) :
    ∃ u, (closeWriters io).run sink = (r, u) ∧ t.closed = u.closed ∧ t.disk = u.disk ∧
      t.storage.writers = u.storage.writers ∧ t.storage.schemas = u.storage.schemas := by
  cases r with
  | ok value =>
      obtain ⟨u, closed, rfl⟩ := rotateWriters_ok h
      exact ⟨u, closed, rfl, rfl, rfl, rfl⟩
  | error error =>
      rcases Attempt.bind_error h with failed | ⟨_, u, -, impossible⟩
      · exact ⟨t, failed, rfl, rfl, rfl, rfl⟩
      · cases impossible

theorem Coherent.of_same {u : ParquetSink} (h : Coherent accepted u) (closed : t.closed = u.closed)
    (writers : t.storage.writers = u.storage.writers)
    (schemas : t.storage.schemas = u.storage.schemas) : Coherent accepted t := by
  have kinds : ∀ writer, HasWriter t writer → HasWriter u writer := by
    intro writer has
    unfold HasWriter at has ⊢
    rw [← closed, ← writers]
    exact has
  refine ⟨?_, ?_, fun writer has => h.sourced writer (kinds writer has), ?_⟩
  · intro E writer lookup
    rw [writers] at lookup
    exact h.keyed E writer lookup
  · intro writer has
    rw [schemas]
    exact h.typed writer (kinds writer has)
  · rw [schemas]
    exact h.named

end Close

section Runs

variable {sink : ParquetSink} {accepted : List WriteCall}

/-- Any call keeps the sink coherent, whether it succeeds or not. -/
theorem SinkCall.coherent (call : SinkCall) (h : Coherent accepted sink) :
    Extends sink (call.run.run sink).2 ∧
      Coherent (accepted ++ (call.accepted? sink).toList) (call.run.run sink).2 := by
  rcases run : call.run.run sink with ⟨r, t⟩
  cases call with
  | writeEvent io call =>
      have run : (ParquetStorage.writeEvent io call).run sink = (r, t) := run
      cases r with
      | ok value =>
          rw [SinkCall.accepted?, run]
          exact (writeEvent_ok run).coherent h
      | error error =>
          rw [SinkCall.accepted?, run, Option.toList_none, List.append_nil]
          rcases writeEvent_failed run with ⟨-, rfl⟩ | abandoned
          · exact ⟨.refl t, h⟩
          · exact abandoned.coherent h
  | rotateWriters io =>
      obtain ⟨u, closed, files, -, writers, schemas⟩ := rotateWriters_run run
      obtain ⟨grown, coherent⟩ := closeWriters_coherent closed h
      rw [SinkCall.accepted?, Option.toList_none, List.append_nil]
      refine ⟨?_, coherent.of_same files writers schemas⟩
      intro E schema found
      rw [schemas]
      exact grown E schema found
  | closeWriters io =>
      rw [SinkCall.accepted?, Option.toList_none, List.append_nil]
      exact closeWriters_coherent run h

theorem after_coherent (calls : List SinkCall) (h : Coherent accepted sink) :
    Extends sink (after calls sink) ∧
      Coherent (accepted ++ acceptedBy calls sink) (after calls sink) := by
  induction calls generalizing sink accepted with
  | nil => exact ⟨.refl sink, by rw [acceptedBy, List.append_nil]; exact h⟩
  | cons call calls ih =>
      obtain ⟨first, coherent⟩ := call.coherent h
      obtain ⟨rest, coherent⟩ := ih coherent
      rw [List.append_assoc] at coherent
      exact ⟨first.trans rest, coherent⟩

theorem expectedSchemaNames_inj {columns columns' : List String}
    (h : expectedSchemaNames columns = expectedSchemaNames columns') : columns = columns' :=
  List.append_cancel_left h

/-- What holds of the schemas after any history. -/
structure OneSchema (disk : Disk) (calls : List SinkCall) : Prop where
  current : ∀ E writer, (after calls (freshOn disk)).storage.writers.lookup E = some writer →
    (after calls (freshOn disk)).storage.schemas.lookup E = some writer.schema
  lasting : ∀ past later, calls = past ++ later →
    Extends (after past (freshOn disk)) (after calls (freshOn disk))
  names : ∀ a ∈ acceptedBy calls (freshOn disk), ∀ b ∈ acceptedBy calls (freshOn disk),
    a.eventType = b.eventType → a.columns.map Prod.fst = b.columns.map Prod.fst
  files : ∀ writer, HasWriter (after calls (freshOn disk)) writer →
    (after calls (freshOn disk)).storage.schemas.lookup writer.path.eventType =
      some writer.schema ∧
    ∀ row ∈ writer.rows, ∃ call ∈ acceptedBy calls (freshOn disk),
      call.eventType = writer.path.eventType ∧ call.row = row ∧
        schemaNames writer.schema = expectedSchemaNames (call.columns.map Prod.fst)
  rejected : ∀ io call schema,
    (after calls (freshOn disk)).storage.schemas.lookup call.eventType = some schema →
    expectedSchemaNames (call.columns.map Prod.fst) ≠ schemaNames schema →
    (writeEvent io call).run (after calls (freshOn disk)) =
      (.error s!"schema mismatch for event type '{call.eventType}'", after calls (freshOn disk))

/-- A call whose columns differ from the cached schema fails and changes nothing. -/
theorem writeEvent_mismatch (io : WriteIo) {call : WriteCall} {schema : Schema}
    (found : sink.storage.schemas.lookup call.eventType = some schema)
    (differs : expectedSchemaNames (call.columns.map Prod.fst) ≠ schemaNames schema) :
    (writeEvent io call).run sink =
      (.error s!"schema mismatch for event type '{call.eventType}'", sink) := by
  apply Attempt.run_bind_error
  rw [getOrCreateSchema, Attempt.run_bind_ok (Attempt.run_get sink), found]
  simp only [differs, ne_eq, not_false_eq_true, if_true, Attempt.run_fail]

/-- Over the life of a storage, whatever its calls and their outcomes, an event type has one
schema. -/
theorem one_schema (disk : Disk) (calls : List SinkCall) : OneSchema disk calls := by
  obtain ⟨-, coherent⟩ := after_coherent calls (coherent_freshOn disk)
  rw [List.nil_append] at coherent
  refine ⟨?_, ?_, ?_, ?_, fun io call schema found differs => writeEvent_mismatch io found differs⟩
  · intro E writer lookup
    have typed := coherent.typed writer (.inr ⟨E, lookup⟩)
    rw [coherent.keyed E writer lookup] at typed
    exact typed
  · rintro past later rfl
    obtain ⟨-, before⟩ := after_coherent past (coherent_freshOn disk)
    rw [after_append]
    exact (after_coherent later before).1
  · intro a inA b inB same
    obtain ⟨schema, found, names⟩ := coherent.named a inA
    obtain ⟨schema', found', names'⟩ := coherent.named b inB
    rw [same] at found
    obtain rfl := Option.some.inj (found.symm.trans found')
    exact expectedSchemaNames_inj (names.symm.trans names')
  · intro writer has
    have typed := coherent.typed writer has
    refine ⟨typed, fun row member => ?_⟩
    obtain ⟨call, isAccepted, directory, same⟩ := coherent.sourced writer has row member
    obtain ⟨schema, found, names⟩ := coherent.named call isAccepted
    rw [directory, typed] at found
    obtain rfl := Option.some.inj found
    exact ⟨call, isAccepted, directory, same, names⟩

end Runs

end PolymarketIndexer.ParquetStorage
