import PolymarketIndexer.Frontfill.Ingest
import PolymarketIndexer.Storage.Schemas

/-! # What a live run asks of its sink

A run only writes decoded events, and it goes on only after a call that succeeded. So
what the successful calls for decoded events keep holds of the sink as long as the
run goes on.
-/

namespace PolymarketIndexer.Frontfill

variable {σ ω : Type} {config : FrontfillConfig} {alloy : Alloy}

theorem call_ofEvent {taken : Taken} {decoded : DecodedEvent} {log : Log}
    (h : decodeLog alloy log = .ok (some decoded)) : (taken.call decoded).OfEvent := by
  obtain ⟨kind, -, name, columns⟩ := decodeLog_some h
  exact ⟨kind, name, columns⟩

/-- The call a run is about to make is for a decoded event. -/
theorem writing_ofEvent {s : State σ ω} {taken : Taken} {decoded : DecodedEvent}
    (ingested : Ingested alloy s) (writing : s.phase = .writing taken decoded) :
    (taken.call decoded).OfEvent := by
  obtain ⟨-, log, -, -, -, isDecoded⟩ :=
    ingested.busy taken (some decoded) (by rw [writing]; rfl)
  exact call_ofEvent (isDecoded decoded rfl)

def GoesOn (s : State σ ω) : Prop := s.phase.result? = none ∨ s.phase.result? = some (.ok ())

theorem not_goesOn {s : State σ ω} {error : String}
    (result : s.phase.result? = some (.error error)) : ¬GoesOn s := by
  rintro (none_ | ok)
  · cases none_.symm.trans result
  · cases ok.symm.trans result

variable [EventSink σ ω]

/-- The successful calls of a run keep a property of the sink. -/
structure Kept (σ : Type) {ω : Type} [EventSink σ ω] (P : σ → Prop) : Prop where
  write : ∀ (io : ω) (call : WriteCall) (sink t : σ), call.OfEvent → P sink →
    (EventSink.writeEvent io call).run sink = (.ok (), t) → P t
  rotate : ∀ (io : ω) (sink t : σ), P sink → (EventSink.rotate io).run sink = (.ok (), t) → P t
  close : ∀ (io : ω) (sink t : σ), P sink → (EventSink.close io).run sink = (.ok (), t) → P t

variable {s t : State σ ω} {P : σ → Prop}

theorem step_keeps (kept : Kept σ P) {input : Input ω} (ingested : Ingested alloy s)
    (before : GoesOn s → P s.sink) (moved : step config alloy s input = some t) :
    GoesOn t → P t.sink := by
  intro goesOn
  cases step_moves moved with
  | quiet sink trace inHand result =>
      rw [sink]
      apply before
      rw [GoesOn, ← result]
      exact goesOn
  | refused free running why => exact absurd goesOn (not_goesOn rfl)
  | took selecting =>
      rw [take_sink]
      exact before (.inl (by rw [selecting]; rfl))
  | decided locking early sink trace =>
      rw [decode_sink, sink]
      exact before (.inl (by rw [locking]; rfl))
  | @rotated u taken io rotating call trace =>
      rw [decode_sink]
      exact kept.rotate io s.sink u.sink (before (.inl (by rw [rotating]; rfl))) call
  | rotateFailed rotating call => exact absurd goesOn (not_goesOn rfl)
  | @wrote _ taken decoded io writing call trace selecting =>
      exact kept.write io (taken.call decoded) s.sink t.sink (writing_ofEvent ingested writing)
        (before (.inl (by rw [writing]; rfl))) call
  | writeFailed writing call trace free result => exact absurd goesOn (not_goesOn result)
  | @closed _ io closing call trace free result =>
      exact kept.close io s.sink t.sink (before (.inl (by rw [closing]; rfl))) call
  | closeFailed closing call => exact absurd goesOn (not_goesOn rfl)

/-- As long as a run goes on its sink has what its calls keep. -/
theorem run_keeps (kept : Kept σ P) {sink : σ} (initial : P sink)
    {runtime : Except String FrontfillMetrics} {inputs : List (Input ω)}
    (start : launch config (.ok sink) runtime = .ok s)
    (run : Machine.exec (step config alloy) s inputs = some t) : GoesOn t → P t.sink := by
  obtain ⟨-, same, -⟩ := launch_start start
  have first : Ingested alloy s ∧ (GoesOn s → P s.sink) := by
    refine ⟨@run_ingested _ _ config alloy _ _ _ _ _ [] start rfl, fun _ => ?_⟩
    rw [← Except.ok.inj same]
    exact initial
  have keeps : ∀ (a : State σ ω) (i : Input ω) (b : State σ ω), True →
      (Ingested alloy a ∧ (GoesOn a → P a.sink)) → step config alloy a i = some b →
      Ingested alloy b ∧ (GoesOn b → P b.sink) :=
    fun _ _ _ _ before moved =>
      ⟨step_ingested before.1 moved, step_keeps kept before.1 before.2 moved⟩
  exact (Machine.exec_invariant _ keeps (fun _ _ => trivial) run first).2

end PolymarketIndexer.Frontfill
