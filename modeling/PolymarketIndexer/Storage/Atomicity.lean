import PolymarketIndexer.Storage.Closing

/-! # What a failed write leaves behind

The schema of a new event type is cached before the directory, the file and the batch
are made, and a new writer is kept before the batch is made and written. So a write that
fails at one of these leaves the schema there, or a writer without rows. No row is lost
or added. What was left tells the two storages apart by a later call: a schema by a write
with other columns, a writer by a close that it fails.
-/

namespace PolymarketIndexer.ParquetStorage

open Unordered

/-- The rows that the open writer of an event type holds. -/
def heldRows (E : String) (sink : ParquetSink) : List Row :=
  ((sink.storage.writers.lookup E).map ArrowWriter.rows).getD []

section Outcome

variable {io : WriteIo} {call : WriteCall} {sink t : ParquetSink} {error : String}

/-- A failed write leaves every row where it was. -/
theorem writeEvent_rows (h : (writeEvent io call).run sink = (.error error, t)) (E : String) :
    heldRows E t = heldRows E sink := by
  unfold heldRows
  rcases writeEvent_failed h with ⟨-, rfl⟩ | abandoned
  · rfl
  · obtain ⟨schema, -, own⟩ := abandoned.own
    by_cases same : E = call.eventType
    · subst same
      rcases own with unchanged | ⟨absent, opened⟩
      · rw [unchanged]
      · rw [absent, opened]
        rfl
    · rw [abandoned.others E same]

end Outcome

section Example

end Example

end PolymarketIndexer.ParquetStorage
