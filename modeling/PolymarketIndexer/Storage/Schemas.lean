import PolymarketIndexer.Storage.FileSets
import PolymarketIndexer.Decode

/-! # One schema for each event type

The event type of a decoded log fixes its column names. So the schema cached for an
event type is the one any later call would build, no call is rejected for its schema, and
every file of the event type has it.
-/

namespace PolymarketIndexer

/-- A call for a decoded event. -/
def WriteCall.OfEvent (call : WriteCall) : Prop :=
  ∃ kind : EventType, call.eventType = kind.name ∧ call.columns.map Prod.fst = columnNames kind

namespace ParquetStorage

open Unordered

/-- The schema belongs to the event type of that name. -/
def SchemaOf (E : String) (schema : Schema) : Prop :=
  ∃ kind : EventType, E = kind.name ∧ schema = schemaFor (columnNames kind)

theorem SchemaOf.unique {E : String} {schema schema' : Schema} (h : SchemaOf E schema)
    (h' : SchemaOf E schema') : schema = schema' := by
  obtain ⟨kind, name, rfl⟩ := h
  obtain ⟨kind', name', rfl⟩ := h'
  obtain rfl : kind = kind' := EventType.name_injective (name.symm.trans name')
  rfl

theorem schemaOf_call {call : WriteCall} (event : call.OfEvent) :
    SchemaOf call.eventType (schemaFor (call.columns.map Prod.fst)) := by
  obtain ⟨kind, name, columns⟩ := event
  exact ⟨kind, name, by rw [columns]⟩

/-- Every schema the sink has anywhere is that of its event type. -/
structure Typed (sink : ParquetSink) : Prop where
  keyed : Keyed sink
  cached : ∀ E schema, sink.storage.schemas.lookup E = some schema → SchemaOf E schema
  current : ∀ E writer, sink.storage.writers.lookup E = some writer → SchemaOf E writer.schema
  finished : ∀ writer ∈ sink.closed, SchemaOf writer.path.eventType writer.schema

theorem typed_freshOn (disk : Disk) : Typed (freshOn disk) where
  keyed := keyed_freshOn disk
  cached _ _ h := by cases h
  current _ _ h := by cases h
  finished _ h := by cases h

section Write

variable {io : WriteIo} {call : WriteCall} {sink t : ParquetSink}

theorem Written.typed (written : Written io call sink t) (event : call.OfEvent) (h : Typed sink) :
    Typed t := by
  obtain ⟨schema, cached, -, source, writer⟩ := written.own
  have own : SchemaOf call.eventType schema := by
    rcases source with found | ⟨-, rfl⟩
    · exact h.cached _ _ found
    · exact schemaOf_call event
  refine ⟨written.keyed h.keyed, ?_, ?_, ?_⟩
  · intro E schema' lookup
    by_cases same : E = call.eventType
    · subst same
      obtain rfl := Option.some.inj (cached.symm.trans lookup)
      exact own
    · exact h.cached E schema' (by rw [← (written.others E same).2, lookup])
  · intro E w lookup
    by_cases same : E = call.eventType
    · subst same
      rcases writer with ⟨before, found, appended, -⟩ | ⟨-, opened, -⟩
      · obtain rfl := Option.some.inj (appended.symm.trans lookup)
        exact h.current _ before found
      · obtain rfl := Option.some.inj (opened.symm.trans lookup)
        exact own
    · exact h.current E w (by rw [← (written.others E same).1, lookup])
  · rw [written.closed]
    exact h.finished

/-- The outside answers every step of a write with success. -/
structure WriteIo.Succeeds (io : WriteIo) : Prop where
  createDirAll : io.createDirAll = .ok ()
  createFile : io.createFile = .ok ()
  tryNewWriter : io.tryNewWriter = .ok ()
  tryNewBatch : io.tryNewBatch = .ok ()
  write : io.write = .ok ()

theorem WriteIo.Succeeds.opens (answers : WriteIo.Succeeds io) : WriteIo.Opens io where
  createDirAll := answers.createDirAll
  createFile := answers.createFile
  tryNewWriter := answers.tryNewWriter

theorem getOrCreateSchema_total (event : call.OfEvent) (h : Typed sink) :
    ∃ t, (getOrCreateSchema call.eventType (call.columns.map Prod.fst)).run sink =
      (.ok (schemaFor (call.columns.map Prod.fst)), t) := by
  rw [getOrCreateSchema, Attempt.run_bind_ok (Attempt.run_get sink)]
  cases found : sink.storage.schemas.lookup call.eventType with
  | some schema =>
      obtain rfl := (schemaOf_call event).unique (h.cached _ _ found)
      refine ⟨sink, ?_⟩
      simp only [schemaNames_schemaFor, ne_eq, not_true_eq_false, if_false, Attempt.run_pure]
  | none =>
      simp only
      rw [Attempt.run_bind_ok (Attempt.run_modify _ sink)]
      exact ⟨_, rfl⟩

/-- A write of a decoded event fails only when the outside does. -/
theorem writeEvent_total (answers : WriteIo.Succeeds io) (event : call.OfEvent) (h : Typed sink) :
    ∃ t, (writeEvent io call).run sink = (.ok (), t) := by
  obtain ⟨s₁, cached⟩ := getOrCreateSchema_total event h
  obtain ⟨s₂, inDirectory⟩ := ensureDirectory_opens answers.opens call.eventType s₁
  obtain ⟨s₃, opened⟩ := ensureWriter_opens answers.opens call.eventType
    (schemaFor (call.columns.map Prod.fst)) s₂
  obtain ⟨batch, fits, -⟩ := tryNew_arrays call
  rw [writeEvent, Attempt.run_bind_ok cached, Attempt.run_bind_ok inDirectory,
    Attempt.run_bind_ok opened, answers.tryNewBatch, Attempt.run_bind_ok (Attempt.run_answer _ s₃),
    fits, Attempt.run_bind_ok (Attempt.run_answer _ s₃), answers.write]
  exact ⟨_, rfl⟩

end Write

section Close

variable {io : CloseIo} {sink t : ParquetSink}

theorem closed_typed (done : (closeWriters io).run sink = (.ok (), t)) (h : Typed sink) :
    Typed t := by
  have keyed := closed_keyed done
  obtain rfl := closeWriters_ok done
  refine ⟨keyed, ?_, ?_, ?_⟩
  · rw [foldl_finish_storage]
    exact h.cached
  · intro E writer lookup
    rw [foldl_finish_storage] at lookup
    cases lookup
  · intro writer member
    rw [foldl_finish_closed] at member
    rcases List.mem_append.mp member with before | now
    · exact h.finished writer before
    · obtain ⟨⟨E, w⟩, inOrder, rfl⟩ := List.mem_map.mp now
      have lookup := mem_iterate.mp inOrder
      have named : w.path.eventType = E := h.keyed E w lookup
      rw [named]
      exact h.current E w lookup

theorem rotateWriters_total (closes : ∀ E, io.close E = .ok ()) (sink : ParquetSink) :
    ∃ t, (rotateWriters io).run sink = (.ok (), t) := by
  obtain ⟨u, closed⟩ := closeWriters_total closes sink
  rw [rotateWriters, Attempt.run_bind_ok closed]
  exact ⟨_, rfl⟩

theorem rotated_typed (done : (rotateWriters io).run sink = (.ok (), t)) (h : Typed sink) :
    Typed t := by
  obtain ⟨u, closed, rfl⟩ := rotateWriters_ok done
  have after := closed_typed closed h
  exact ⟨after.keyed, after.cached, after.current, after.finished⟩

end Close

end ParquetStorage

end PolymarketIndexer
