import PolymarketIndexer.Frontfill.Steps

/-! # What one step does to the metrics

With metrics enabled each step is one of a few kinds: it leaves the ledger of counters
alone, or it enters what it did. The stage of a phase says what is still to be entered.
-/

namespace PolymarketIndexer

open Unordered

/-- What the metrics say besides the rates. -/
structure Ledger where
  logs : Nat
  types : Nat
  writes : Nat
  rotations : Nat
  missingMetadata : Nat
  decodeErrors : Nat
  writeErrors : Nat
  connected : Bool
  lastLog : UInt64

namespace FrontfillMetrics

def ledger (metrics : FrontfillMetrics) : Ledger where
  logs := metrics.logsTotal
  types := total metrics.logsByTypeTotal
  writes := metrics.sinkWriteSeconds
  rotations := metrics.rotateTotal
  missingMetadata := metrics.missingMetadataTotal
  decodeErrors := metrics.decodeErrorsTotal
  writeErrors := metrics.writeErrorsTotal
  connected := metrics.wsConnected
  lastLog := metrics.lastLogUnixSeconds

/-- Counting a decoded type adds one to the sum over the types. -/
theorem observeDecodedTypeCounters_ledger (metrics : FrontfillMetrics) (eventType : String) :
    (metrics.observeDecodedTypeCounters eventType).ledger =
      { metrics.ledger with types := metrics.ledger.types + 1 } := by
  have sum := total_insert metrics.logsByTypeTotal eventType
    ((metrics.logsByTypeTotal.lookup eventType).getD 0 + 1)
  have one : total (metrics.observeDecodedTypeCounters eventType).logsByTypeTotal =
      total metrics.logsByTypeTotal + 1 := by
    simp only [observeDecodedTypeCounters]
    omega
  simp only [ledger, one]
  rfl

end FrontfillMetrics

namespace Frontfill

/-- Where the run is: outside the inner loop, in it, in it with a log or a type to be counted
or counted but not written, or past its loops. -/
inductive Stage where
  | outside
  | loop
  | uncounted
  | typed
  | gone
  deriving DecidableEq

def Phase.stage : Phase → Stage
  | .starting | .connecting _ | .subscribing _ | .backoff _ => .outside
  | .selecting _ | .recording _ | .locking _ | .rotating _ | .observingType _ _ | .closing => .loop
  | .observing _ => .uncounted
  | .recordingType _ _ | .writing _ _ => .typed
  | .exiting _ | .returned _ => .gone

variable {σ ω : Type}

/-- The reading of the wall clock with which a step observes a log. -/
def observation (s : State σ ω) : Input ω → Option (Log × UInt64)
  | .observe unixSeconds =>
      match s.phase with
      | .observing taken => some (taken.log, unixSeconds)
      | _ => none
  | _ => none

/-- The kinds of steps, with the ledger before and after. -/
inductive Meters (alloy : Alloy) (s : State σ ω) (a : Ledger) :
    Input ω → State σ ω → Ledger → Prop where
  | steady {input : Input ω} {t : State σ ω} (stage : t.phase.stage = s.phase.stage)
      (result : t.phase.result? = s.phase.result?) (trace : t.trace = s.trace)
      (streaming : input ≠ .next none) (unseen : observation s input = none) :
      Meters alloy s a input t a
  | subscribed {t : State σ ω} (outside : s.phase.stage = .outside)
      (loop : t.phase.stage = .loop) (trace : t.trace = s.trace) :
      Meters alloy s a (.subscribed (.ok ())) t { a with connected := true }
  | ended {t : State σ ω} (loop : s.phase.stage = .loop) (outside : t.phase.stage = .outside)
      (trace : t.trace = s.trace) :
      Meters alloy s a (.next none) t { a with connected := false }
  | took {t : State σ ω} {log : Log} {taken : Taken} (loop : s.phase.stage = .loop)
      (checked : checkMetadata alloy log = .ok taken) (observing : t.phase = .observing taken)
      (trace : t.trace = s.trace ++ [.received log]) :
      Meters alloy s a (.next (some log)) t a
  | missing {t : State σ ω} {log : Log} {error : String} (loop : s.phase.stage = .loop)
      (checked : checkMetadata alloy log = .error error)
      (exiting : t.phase = .exiting (.error error))
      (trace : t.trace = s.trace ++ [.received log]) :
      Meters alloy s a (.next (some log)) t
        { a with missingMetadata := a.missingMetadata + 1, connected := false }
  | counted {t : State σ ω} {taken : Taken} {unixSeconds : UInt64}
      (observing : s.phase = .observing taken) (loop : t.phase.stage = .loop)
      (trace : t.trace = s.trace) :
      Meters alloy s a (.observe unixSeconds) t
        { a with logs := a.logs + 1, lastLog := unixSeconds }
  | countedType {t : State σ ω} {unixSeconds : UInt64} (loop : s.phase.stage = .loop)
      (typed : t.phase.stage = .typed) (trace : t.trace = s.trace) :
      Meters alloy s a (.observe unixSeconds) t { a with types := a.types + 1 }
  | rotated {t : State σ ω} {io : ω} (loop : s.phase.stage = .loop)
      (still : t.phase.stage = .loop) (trace : t.trace = s.trace ++ [.rotated io]) :
      Meters alloy s a (.sink io) t { a with rotations := a.rotations + 1 }
  | undecodable {t : State σ ω} {input : Input ω} {effects : List (Effect ω)} {error : String}
      (loop : s.phase.stage = .loop) (exiting : t.phase = .exiting (.error error))
      (trace : t.trace = s.trace ++ effects)
      (rotated : effects = [] ∨ ∃ io, input = .sink io ∧ effects = [.rotated io]) :
      Meters alloy s a input t
        { a with
          rotations := a.rotations + effects.length
          decodeErrors := a.decodeErrors + 1
          connected := false }
  | wrote {t : State σ ω} {io : ω} {call : WriteCall} (typed : s.phase.stage = .typed)
      (loop : t.phase.stage = .loop) (trace : t.trace = s.trace ++ [.wrote io call]) :
      Meters alloy s a (.sink io) t { a with writes := a.writes + 1 }
  | writeFailed {t : State σ ω} {io : ω} {error : String} (typed : s.phase.stage = .typed)
      (exiting : t.phase = .exiting (.error error))
      (trace : t.trace = s.trace ++ [.sinkFailed error]) :
      Meters alloy s a (.sink io) t
        { a with
          writes := a.writes + 1
          writeErrors := a.writeErrors + 1
          connected := false }
  | closed {t : State σ ω} {io : ω} (loop : s.phase.stage = .loop)
      (exiting : t.phase = .exiting (.ok ())) (trace : t.trace = s.trace ++ [.closed io]) :
      Meters alloy s a (.sink io) t { a with connected := false }
  | left {t : State σ ω} {input : Input ω} {effect : Effect ω} {error : String}
      (running : s.phase.stage = .outside ∨ s.phase.stage = .loop)
      (returned : t.phase = .returned (.error error))
      (trace : t.trace = s.trace ++ [effect])
      (failed : effect = .refused error ∨ effect = .sinkFailed error) :
      Meters alloy s a input t a

/-- A step of a run with metrics. -/
def Metered (alloy : Alloy) (s : State σ ω) (m : FrontfillMetrics) (input : Input ω)
    (t : State σ ω) : Prop :=
  ∃ m', t.metrics = some m' ∧ Meters alloy s m.ledger input t m'.ledger

variable {config : FrontfillConfig} {alloy : Alloy} {s t : State σ ω} {m : FrontfillMetrics}
  {input : Input ω}

/-- A step between two phases of one stage that touches neither the ledger nor the trace. -/
theorem Metered.within {m' : FrontfillMetrics} {before : Phase} (was : s.phase = before)
    (stage : t.phase.stage = before.stage) (result : t.phase.result? = before.result?)
    (trace : t.trace = s.trace) (metrics : t.metrics = some m') (same : m'.ledger = m.ledger)
    (streaming : input ≠ .next none) (unseen : observation s input = none) :
    Metered alloy s m input t := by
  subst was
  exact ⟨m', metrics, same ▸ .steady stage result trace streaming unseen⟩

theorem measured (metrics : s.metrics = some m) (change : FrontfillMetrics → FrontfillMetrics) :
    (s.measure change).metrics = some (change m) := by
  rw [State.measure, metrics]
  rfl

/-- A decoded log in hand, with what came before it in the step. -/
theorem decode_meters {u : State σ ω} {m : FrontfillMetrics} (taken : Taken)
    (metrics : u.metrics = some m) :
    ((u.decode alloy taken).phase.stage = .loop ∧
        (u.decode alloy taken).phase.result? = none ∧
        (u.decode alloy taken).metrics = some m) ∨
      ∃ error, (u.decode alloy taken).phase = .exiting (.error error) ∧
        (u.decode alloy taken).metrics = some { countDecodeError m with wsConnected := false } := by
  unfold State.decode
  rcases decodeLog alloy taken.log with error | _ | decoded
  · exact .inr ⟨error, by simp [State.fail, metrics], by simp [State.fail, metrics]⟩
  · exact .inl ⟨rfl, rfl, metrics⟩
  · exact .inl ⟨by simp [metrics, Phase.stage], by simp [metrics, Phase.result?], metrics⟩

theorem reconnect_meters (metrics : s.metrics = some m)
    (h : reconnectStep config alloy s input = some t) :
    Metered alloy s m input t := by
  cases input with
  | connect =>
      simp only [reconnectStep] at h
      split at h
      · rename_i error starting failed
        obtain rfl := Option.some.inj h
        exact ⟨m, metrics, .left (.inl (by rw [starting]; rfl)) rfl rfl (.inl rfl)⟩
      · rename_i ws starting built
        obtain rfl := Option.some.inj h
        exact .within starting rfl rfl rfl metrics rfl (by simp) rfl
      · cases h
  | connected result =>
      simp only [reconnectStep] at h
      split at h
      · rename_i connecting
        obtain rfl := Option.some.inj h
        exact .within connecting rfl rfl rfl metrics rfl (by simp) rfl
      · rename_i error connecting failed
        obtain rfl := Option.some.inj h
        exact ⟨m, metrics, .left (.inl (by rw [connecting]; rfl)) rfl rfl (.inl rfl)⟩
      · rename_i filter connecting built
        obtain rfl := Option.some.inj h
        exact .within connecting rfl rfl rfl metrics rfl (by simp) rfl
      · cases h
  | subscribed result =>
      simp only [reconnectStep] at h
      split at h
      · rename_i subscribing
        obtain rfl := Option.some.inj h
        exact .within subscribing rfl rfl rfl metrics rfl (by simp) rfl
      · rename_i filter _ subscribing
        obtain rfl := Option.some.inj h
        refine ⟨{ m with wsConnected := true }, by simp [State.measure, State.select, metrics], ?_⟩
        exact .subscribed (by rw [subscribing]; rfl) rfl rfl
      · cases h
  | slept =>
      simp only [reconnectStep] at h
      split at h
      · rename_i backoff
        obtain rfl := Option.some.inj h
        exact .within backoff rfl rfl rfl metrics rfl (by simp) rfl
      · cases h
  | _ => cases h

theorem select_meters (metrics : s.metrics = some m) (h : selectStep alloy s input = some t) :
    Metered alloy s m input t := by
  cases input with
  | pollCtrlC result =>
      simp only [selectStep] at h
      split at h
      · rename_i error selecting
        obtain rfl := Option.some.inj h
        exact ⟨m, metrics, .left (.inr (by rw [selecting]; rfl)) rfl rfl (.inl rfl)⟩
      · rename_i selecting
        obtain rfl := Option.some.inj h
        exact .within selecting rfl rfl rfl metrics rfl (by simp) rfl
      · cases h
  | next log =>
      simp only [selectStep] at h
      split at h
      · rename_i listener log selecting
        obtain rfl := Option.some.inj h
        have loop : s.phase.stage = .loop := by rw [selecting]; rfl
        cases checked : checkMetadata alloy log with
        | error error =>
            refine ⟨{ countMissingMetadata m with wsConnected := false }, ?_,
              .missing loop checked ?_ (take_trace s alloy log)⟩
            · simp [State.take, checked, State.fail, State.note, metrics]
            · simp [State.take, checked, State.fail, State.note, metrics]
        | ok taken =>
            refine ⟨m, ?_, .took loop checked ?_ (take_trace s alloy log)⟩
            · simp [State.take, checked, State.note, metrics]
            · simp [State.take, checked, metrics]
      · rename_i listener selecting
        obtain rfl := Option.some.inj h
        refine ⟨{ m with wsConnected := false }, by simp [State.measure, State.backOff, metrics], ?_⟩
        exact .ended (by rw [selecting]; rfl) rfl rfl
      · cases h
  | shutdown =>
      simp only [selectStep] at h
      split at h
      · rename_i selecting
        obtain rfl := Option.some.inj h
        exact .within selecting rfl rfl rfl metrics rfl (by simp) rfl
      · cases h
  | _ => cases h

/-- A log whose block is not due: it is decoded without a rotation. -/
theorem early_meters {u : State σ ω} {taken : Taken} (locking : s.phase = .locking taken)
    (trace : u.trace = s.trace) (metrics : u.metrics = some m) :
    Metered alloy s m .lock (u.decode alloy taken) := by
  have loop : s.phase.stage = .loop := by rw [locking]; rfl
  rcases @decode_meters _ _ alloy _ _ taken metrics with
    ⟨still, running, metrics'⟩ | ⟨error, exiting, metrics'⟩
  · refine ⟨m, metrics', .steady (still.trans loop.symm) ?_ (by rw [decode_trace, trace]) nofun
      rfl⟩
    rw [running, locking]
    rfl
  · exact ⟨_, metrics', .undecodable loop exiting (by rw [decode_trace, trace, List.append_nil])
      (.inl rfl)⟩

theorem signal_meters (metrics : s.metrics = some m) (h : signalStep s = some t) :
    Metered alloy s m .signal t := by
  unfold signalStep at h
  split at h
  · cases h
  · rename_i listener selecting
    split at h
    · obtain rfl := Option.some.inj h
      exact .within selecting rfl rfl rfl metrics rfl (by simp) rfl
    · cases h
  · split at h
    · obtain rfl := Option.some.inj h
      exact ⟨m, metrics, .steady rfl rfl rfl (by simp) rfl⟩
    · cases h

variable [EventSink σ ω]

theorem sink_meters {io : ω} (metrics : s.metrics = some m)
    (h : sinkStep config alloy s io = some t) : Metered alloy s m (.sink io) t := by
  unfold sinkStep at h
  split at h
  · rename_i taken rotating
    have loop : s.phase.stage = .loop := by rw [rotating]; rfl
    split at h
    · rename_i error sink call
      obtain rfl := Option.some.inj h
      exact ⟨m, metrics, .left (.inr loop) rfl rfl (.inr rfl)⟩
    · rename_i sink call
      obtain rfl := Option.some.inj h
      have counted : ((({ s with sink := sink }.note (.rotated io)).measure
          countRotation).openWindow config taken).metrics = some (countRotation m) := by
        simp [State.openWindow, State.measure, State.note, metrics]
      rcases @decode_meters _ _ alloy _ _ taken counted with
        ⟨still, -, metrics'⟩ | ⟨error, exiting, metrics'⟩
      · exact ⟨_, metrics', .rotated loop still (by simp [State.openWindow])⟩
      · exact ⟨_, metrics', .undecodable loop exiting (by simp [State.openWindow])
          (.inr ⟨io, rfl, rfl⟩)⟩
  · rename_i taken decoded writing
    have typed : s.phase.stage = .typed := by rw [writing]; rfl
    split at h
    · rename_i error sink call
      obtain rfl := Option.some.inj h
      refine ⟨{ countWriteError (observeDuration m) with wsConnected := false }, ?_,
        .writeFailed typed ?_ rfl⟩
      · simp [State.fail, State.measure, State.note, metrics]
      · simp [State.fail, State.measure, State.note, metrics]
    · rename_i sink call
      obtain rfl := Option.some.inj h
      refine ⟨observeDuration m, ?_, .wrote typed rfl rfl⟩
      simp [State.select, State.measure, State.note, metrics]
  · rename_i closing
    have loop : s.phase.stage = .loop := by rw [closing]; rfl
    split at h
    · rename_i error sink call
      obtain rfl := Option.some.inj h
      exact ⟨m, metrics, .left (.inr loop) rfl rfl (.inr rfl)⟩
    · rename_i sink call
      obtain rfl := Option.some.inj h
      refine ⟨countShutdown m, ?_, .closed loop ?_ rfl⟩
      · simp [State.measure, State.note, metrics]
      · simp [metrics]
  · cases h

theorem process_meters (metrics : s.metrics = some m)
    (h : processStep config alloy s input = some t) : Metered alloy s m input t := by
  cases input with
  | observe unixSeconds =>
      simp only [processStep] at h
      split at h
      · rename_i taken observing
        obtain rfl := Option.some.inj h
        refine ⟨m.observeLogCounters taken.blockNumber unixSeconds, ?_, .counted observing rfl rfl⟩
        simp [State.measure, metrics]
      · rename_i taken decoded observing
        obtain rfl := Option.some.inj h
        refine ⟨m.observeDecodedTypeCounters decoded.eventType, ?_, ?_⟩
        · simp [State.measure, metrics]
        · rw [FrontfillMetrics.observeDecodedTypeCounters_ledger]
          exact .countedType (by rw [observing]; rfl) rfl rfl
      · cases h
  | record seen now =>
      simp only [processStep] at h
      split at h
      · rename_i taken recording
        obtain rfl := Option.some.inj h
        exact .within recording rfl rfl rfl (measured metrics _) rfl (by simp) rfl
      · rename_i taken decoded recording
        obtain rfl := Option.some.inj h
        exact .within recording rfl rfl rfl (measured metrics _) rfl (by simp) rfl
      · cases h
  | lock =>
      simp only [processStep] at h
      split at h
      · rename_i taken target locking due
        split at h
        · obtain rfl := Option.some.inj h
          exact .within locking rfl rfl rfl metrics rfl (by simp) rfl
        · obtain rfl := Option.some.inj h
          exact early_meters locking rfl metrics
      · rename_i taken locking due
        obtain rfl := Option.some.inj h
        exact early_meters locking rfl metrics
      · cases h
  | sink io => exact sink_meters metrics h
  | metricsStopped =>
      simp only [processStep] at h
      split at h
      · rename_i result exiting
        obtain rfl := Option.some.inj h
        exact .within exiting rfl rfl rfl metrics rfl (by simp) rfl
      · cases h
  | _ => cases h

theorem step_meters (metrics : s.metrics = some m) (h : step config alloy s input = some t) :
    Metered alloy s m input t := by
  cases input with
  | connect | connected | subscribed | slept => exact @reconnect_meters _ _ config _ _ _ _ _ metrics h
  | pollCtrlC | next | shutdown => exact select_meters metrics h
  | observe | record | lock | sink | metricsStopped => exact @process_meters _ _ config _ _ _ _ _ _ metrics h
  | signal => exact signal_meters metrics h

end Frontfill

end PolymarketIndexer
