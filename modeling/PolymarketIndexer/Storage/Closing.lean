import PolymarketIndexer.Storage.Attempts

/-! # Closing the writers when some of them fail

The drain loop stops at the first writer that fails to close, and the drain drops the
writers it has not reached. So the call reports a failure whenever there is one, but it
saves the other writers only if the failing ones come last in the drain order.
-/

namespace PolymarketIndexer.ParquetStorage

open Unordered

def Fails (io : CloseIo) (E : String) : Prop := ∃ error, io.close E = .error error

theorem not_fails {io : CloseIo} {E : String} : ¬Fails io E ↔ io.close E = .ok () := by
  unfold Fails
  cases io.close E with
  | ok value => simp
  | error error => simp

/-- Every writer that closes was closed by the call and its file holds its rows, and the call
reports an error exactly when some writer fails. -/
structure Spares (io : CloseIo) (sink t : ParquetSink) (result : Except String Unit) : Prop where
  finalised : ∃ now, t.closed = sink.closed ++ now ∧
    ∀ E writer, sink.storage.writers.lookup E = some writer → io.close E = .ok () →
      writer ∈ now ∧ t.disk.file writer.path = some (.finished writer.table)
  reports : (∃ error, result = .error error) ↔
    ∃ E writer, sink.storage.writers.lookup E = some writer ∧ Fails io E

/-- In the drain order no writer that closes comes after one that fails. -/
def FailsLast (io : CloseIo) (sink : ParquetSink) : Prop :=
  (iterate io.order sink.storage.writers).Pairwise (fun a b => Fails io a.1 → Fails io b.1)

/-- Of a list worked off up to its first bad item, all good items are reached exactly when no
good one comes after a bad one. -/
theorem reached_iff {ε : Type} {good : ε → Prop} {done rest : List ε}
    (nodup : (done ++ rest).Nodup) (worked : ∀ e ∈ done, good e)
    (stops : ∀ e ∈ rest.head?, ¬good e) :
    (∀ e ∈ done ++ rest, good e → e ∈ done) ↔
      (done ++ rest).Pairwise (fun a b => ¬good a → ¬good b) := by
  constructor
  · intro reached
    apply List.pairwise_append.mpr
    refine ⟨?_, ?_, fun a inDone _ _ bad => absurd (worked a inDone) bad⟩
    · exact List.pairwise_of_forall_mem_list (fun a inDone _ _ bad => absurd (worked a inDone) bad)
    · apply List.pairwise_of_forall_mem_list
      intro _ _ b inRest _ isGood
      have inDone := reached b (List.mem_append_right _ inRest) isGood
      exact (List.nodup_append.mp nodup).2.2 b inDone b inRest rfl
  · intro ordered e member isGood
    rcases List.mem_append.mp member with inDone | inRest
    · exact inDone
    · cases rest with
      | nil => cases inRest
      | cons first rest =>
          have bad := stops first rfl
          rcases List.mem_cons.mp inRest with rfl | later
          · exact absurd isGood bad
          · have behind := List.pairwise_cons.mp (List.pairwise_append.mp ordered).2.1
            exact absurd isGood (behind.1 e later bad)

section Close

variable {io : CloseIo} {sink t : ParquetSink} {result : Except String Unit}

/-- The call reports a failure exactly when one of the writers fails. -/
theorem closeWriters_reports (h : (closeWriters io).run sink = (result, t)) :
    (∃ error, result = .error error) ↔
      ∃ E writer, sink.storage.writers.lookup E = some writer ∧ Fails io E := by
  obtain ⟨done, rest, split, worked, -, outcome⟩ := closeWriters_run h
  cases rest with
  | nil =>
      constructor
      · rintro ⟨error, failed⟩
        rw [outcome] at failed
        cases failed
      · rintro ⟨E, writer, lookup, fails⟩
        have member : (⟨E, writer⟩ : (_ : String) × ArrowWriter) ∈ done := by
          rw [← List.append_nil done, ← split]
          exact mem_iterate.mpr lookup
        exact absurd fails (not_fails.mpr (worked _ member))
  | cons entry rest =>
      obtain ⟨error, fails, failed⟩ := outcome
      have member : entry ∈ iterate io.order sink.storage.writers := by
        rw [split]
        exact List.mem_append_right _ List.mem_cons_self
      exact ⟨fun _ => ⟨entry.1, entry.2, mem_iterate.mp member, error, fails⟩,
        fun _ => ⟨error, failed⟩⟩

/-- Writers of different event types finish into different files. -/
theorem finished_file (keyed : Keyed sink) {done rest : List ((_ : String) × ArrowWriter)}
    (split : iterate io.order sink.storage.writers = done ++ rest) (start : ParquetSink)
    {entry : (_ : String) × ArrowWriter} (member : entry ∈ done) :
    (done.foldl (fun s entry => finish s entry.2) start).disk.file entry.2.path =
      some (.finished entry.2.table) := by
  have lookup : ∀ e ∈ done, sink.storage.writers.lookup e.1 = some e.2 := by
    intro e inDone
    exact mem_iterate.mp (by rw [split]; exact List.mem_append_left _ inDone)
  have unique : ∀ w ∈ done.map Sigma.snd, w.path = entry.2.path → w = entry.2 := by
    intro w inDone samePath
    obtain ⟨e, isDone, rfl⟩ := List.mem_map.mp inDone
    have key : e.1 = entry.1 := by
      rw [← keyed e.1 e.2 (lookup e isDone), samePath]
      exact keyed entry.1 entry.2 (lookup entry member)
    have same := lookup e isDone
    rw [key, lookup entry member] at same
    exact (Option.some.inj same).symm
  rw [finish_file, LastWins.held_of_unique (List.mem_map.mpr ⟨entry, member, rfl⟩) unique]
  rfl

theorem closeWriters_spares_iff (keyed : Keyed sink) (h : (closeWriters io).run sink = (result, t)) :
    Spares io sink t result ↔ FailsLast io sink := by
  obtain ⟨done, rest, split, worked, state, outcome⟩ := closeWriters_run h
  have closed : t.closed = sink.closed ++ done.map Sigma.snd := by
    rw [state, foldl_finish_closed]
  have nodup : (done ++ rest).Nodup := by
    rw [← split]
    exact (iterate_keys_nodup io.order sink.storage.writers).of_map Sigma.fst
  have stops : ∀ entry ∈ rest.head?, ¬io.close entry.1 = .ok () := by
    intro entry first
    cases rest with
    | nil => cases first
    | cons entry' rest =>
        obtain rfl := Option.some.inj first
        obtain ⟨error, fails, -⟩ := outcome
        rw [fails]
        simp
  have reached := reached_iff nodup worked stops
  have order : FailsLast io sink ↔
      (done ++ rest).Pairwise (fun a b => ¬io.close a.1 = .ok () → ¬io.close b.1 = .ok ()) := by
    rw [FailsLast, split]
    simp only [← not_fails, not_not]
  rw [order, ← reached]
  constructor
  · intro spares ⟨E, writer⟩ member closes
    have lookup : sink.storage.writers.lookup E = some writer :=
      mem_iterate.mp (by rw [split]; exact member)
    obtain ⟨now, appended, all⟩ := spares.finalised
    obtain rfl := List.append_cancel_left (closed.symm.trans appended)
    obtain ⟨⟨E', w⟩, inDone, rfl⟩ := List.mem_map.mp (all E writer lookup closes).1
    have lookup' : sink.storage.writers.lookup E' = some w :=
      mem_iterate.mp (by rw [split]; exact List.mem_append_left _ inDone)
    obtain rfl : E' = E := (keyed E' w lookup').symm.trans (keyed E w lookup)
    exact inDone
  · intro all
    refine ⟨⟨_, closed, fun E writer lookup closes => ?_⟩, closeWriters_reports h⟩
    have inDone := all ⟨E, writer⟩ (by rw [← split]; exact mem_iterate.mpr lookup) closes
    refine ⟨List.mem_map.mpr ⟨_, inDone, rfl⟩, ?_⟩
    rw [state]
    exact finished_file keyed split _ inDone

/-- Whatever writers are open, each in its directory, and whichever of them fail: a close or a
rotation saves all the others and reports the failure exactly when the failing ones come last
in the drain order. -/
theorem others_spared_iff {call : SinkCall}
    (drains : call = .closeWriters io ∨ call = .rotateWriters io) (keyed : Keyed sink)
    (h : call.run.run sink = (result, t)) : Spares io sink t result ↔ FailsLast io sink := by
  rcases drains with rfl | rfl
  · exact closeWriters_spares_iff keyed h
  · obtain ⟨u, closes, closed, disk, -⟩ := rotateWriters_run h
    rw [← closeWriters_spares_iff keyed closes]
    constructor
    · rintro ⟨finalised, reports⟩
      rw [closed, disk] at finalised
      exact ⟨finalised, reports⟩
    · rintro ⟨finalised, reports⟩
      refine ⟨?_, reports⟩
      rw [closed, disk]
      exact finalised

end Close

section Example

def matchedAt (block : UInt64) : WriteCall where
  eventType := "OrdersMatched"
  blockNumber := block
  txHash := "0x02"
  logIndex := 1
  columns := [("taker_order_hash", "0x07"), ("maker_order_hash", "0x08")]

/-- Two open writers. -/
def twoWriters : ParquetSink :=
  after [.writeEvent (allOk 1000) (cancelledAt 10), .writeEvent (allOk 1000) (matchedAt 10)] fresh

theorem twoWriters_keyed : Keyed twoWriters :=
  (after_coherent _ (coherent_freshOn Disk.empty)).2.keyed

/-- The second event type's writer fails to close. -/
def matchedFails (order : Order ((_ : String) × ArrowWriter)) : CloseIo where
  order := order
  close E := if E = "OrdersMatched" then .error "no space left on device" else .ok ()

theorem others_spared_last : ∃ result t,
    (SinkCall.closeWriters (matchedFails (.reversed _))).run.run twoWriters = (result, t) ∧
      (Spares (matchedFails (.reversed _)) twoWriters t result ↔
        FailsLast (matchedFails (.reversed _)) twoWriters) :=
  ⟨_, _, rfl, others_spared_iff (.inl rfl) twoWriters_keyed rfl⟩

/-- Drained first, the failing writer takes the other one with it. -/
theorem other_writer_lost : ∃ error t,
    (closeWriters (matchedFails (.asStored _))).run twoWriters = (.error error, t) ∧
      t.closed = [] ∧ (∃ writer, twoWriters.storage.writers.lookup "OrderCancelled" = some writer ∧
        (matchedFails (.asStored _)).close "OrderCancelled" = .ok () ∧
        t.disk.file writer.path = some (.unfinished [])) ∧
      ¬Spares (matchedFails (.asStored _)) twoWriters t (.error error) := by
  refine ⟨_, _, rfl, rfl, ⟨_, rfl, rfl, rfl⟩, fun spares => ?_⟩
  obtain ⟨now, appended, all⟩ := spares.finalised
  have member := (all "OrderCancelled" _ rfl rfl).1
  obtain rfl : [] = now := appended
  cases member

end Example

end PolymarketIndexer.ParquetStorage
