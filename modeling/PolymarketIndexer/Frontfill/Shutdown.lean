import PolymarketIndexer.Frontfill.Ingest

/-! # The shutdown signal

The listener for Ctrl-C lives for one turn of the inner loop. A signal is kept only when
it lands on a listener, and then only until the turn ends: a log or the end of the
stream can still win the turn, and the signal is gone with it.
-/

namespace PolymarketIndexer.Frontfill

variable {σ ω : Type}

/-- The run closes its writers, waits for the metrics server or has returned. -/
def Phase.leaving : Phase → Prop
  | .closing | .exiting _ | .returned _ => True
  | _ => False

/-- The listener of this turn has a signal. -/
def Phase.pending : Phase → Bool
  | .selecting (some pending) => pending
  | _ => false

theorem not_pending {phase : Phase} (h : phase.pending = false) :
    phase ≠ .selecting (some true) := by
  rintro rfl
  cases h

/-- Any signal so far is being served, came too late to matter, or is pending. -/
def NotSwallowed (s : State σ ω) : Prop :=
  s.signalled = true → s.phase.leaving ∨ s.phase = .selecting (some true)

/-- A signal lands on a listener, and a turn that has a signal is not won by the stream. A log
without its metadata ends the run anyway. -/
structure Heeds (alloy : Alloy) (s : State σ ω) (input : Input ω) : Prop where
  lands : input = .signal → s.phase.leaving ∨ ∃ pending, s.phase = .selecting (some pending)
  wins : s.phase = .selecting (some true) → ∀ log?, input = .next log? →
    ∃ log error, log? = some log ∧ checkMetadata alloy log = .error error

/-- A listener has a signal only when there was one. -/
def Honest (s : State σ ω) : Prop := s.phase = .selecting (some true) → s.signalled = true

section Steps

variable {config : FrontfillConfig} {alloy : Alloy} {s t : State σ ω}

theorem decode_phase (u : State σ ω) (taken : Taken) :
    (u.decode alloy taken).phase ≠ .selecting (some true) ∧
      (u.decode alloy taken).signalled = u.signalled := by
  unfold State.decode
  rcases decodeLog alloy taken.log with error | _ | decoded
  · unfold State.fail
    cases u.metrics <;> exact ⟨not_pending rfl, rfl⟩
  · exact ⟨not_pending rfl, rfl⟩
  · cases u.metrics <;> exact ⟨not_pending rfl, rfl⟩

theorem take_phase (u : State σ ω) (log : Log) :
    (u.take alloy log).signalled = u.signalled ∧
      (u.take alloy log).phase ≠ .selecting (some true) ∧
      ((u.take alloy log).phase.leaving ↔ ∃ error, checkMetadata alloy log = .error error) := by
  unfold State.take
  cases checkMetadata alloy log with
  | error error =>
      unfold State.fail State.note
      cases u.metrics <;> exact ⟨rfl, not_pending rfl, fun _ => ⟨error, rfl⟩, fun _ => trivial⟩
  | ok taken =>
      refine ⟨rfl, ?_, ?_⟩
      · cases u.metrics <;> exact not_pending rfl
      · constructor
        · cases u.metrics <;> exact False.elim
        · rintro ⟨error, impossible⟩
          cases impossible

theorem fail_phase (u : State σ ω) (count : FrontfillMetrics → FrontfillMetrics) (error : String) :
    (u.fail count error).phase ≠ .selecting (some true) ∧
      (u.fail count error).signalled = u.signalled := by
  unfold State.fail
  cases u.metrics <;> exact ⟨not_pending rfl, rfl⟩

theorem reconnect_step {input : Input ω} (h : reconnectStep config alloy s input = some t) :
    t.signalled = s.signalled ∧ t.phase ≠ .selecting (some true) ∧
      (s.phase.leaving → t.phase.leaving) := by
  cases input with
  | connect =>
      simp only [reconnectStep] at h
      split at h
      · obtain rfl := Option.some.inj h
        exact ⟨rfl, not_pending rfl, fun _ => trivial⟩
      · rename_i starting built
        obtain rfl := Option.some.inj h
        rw [starting]
        exact ⟨rfl, not_pending rfl, False.elim⟩
      · cases h
  | connected result =>
      simp only [reconnectStep] at h
      split at h
      · rename_i connecting
        obtain rfl := Option.some.inj h
        rw [connecting]
        exact ⟨rfl, not_pending rfl, False.elim⟩
      · obtain rfl := Option.some.inj h
        exact ⟨rfl, not_pending rfl, fun _ => trivial⟩
      · rename_i connecting built
        obtain rfl := Option.some.inj h
        rw [connecting]
        exact ⟨rfl, not_pending rfl, False.elim⟩
      · cases h
  | subscribed result =>
      simp only [reconnectStep] at h
      split at h
      · rename_i subscribing
        obtain rfl := Option.some.inj h
        rw [subscribing]
        exact ⟨rfl, not_pending rfl, False.elim⟩
      · rename_i subscribing
        obtain rfl := Option.some.inj h
        rw [subscribing]
        exact ⟨rfl, not_pending rfl, False.elim⟩
      · cases h
  | slept =>
      simp only [reconnectStep] at h
      split at h
      · rename_i backoff
        obtain rfl := Option.some.inj h
        rw [backoff]
        exact ⟨rfl, not_pending rfl, False.elim⟩
      · cases h
  | _ => cases h

variable [EventSink σ ω]

/-- Only a signal sets the flag, and only on a run that has not returned. -/
theorem signal_step (h : step config alloy s .signal = some t) :
    t.signalled = true ∧
      ((∃ pending, s.phase = .selecting (some pending)) ∧ t.phase = .selecting (some true) ∨
        (¬∃ pending, s.phase = .selecting (some pending)) ∧ t.phase = s.phase) := by
  simp only [step, signalStep] at h
  split at h
  · cases h
  · rename_i pending selecting
    split at h
    · obtain rfl := Option.some.inj h
      exact ⟨rfl, .inl ⟨⟨pending, selecting⟩, rfl⟩⟩
    · cases h
  · rename_i returned selecting
    split at h
    · obtain rfl := Option.some.inj h
      refine ⟨rfl, .inr ⟨?_, rfl⟩⟩
      rintro ⟨pending, at_⟩
      exact selecting pending at_
    · cases h

theorem sink_step {io : ω} (h : sinkStep config alloy s io = some t) :
    t.signalled = s.signalled ∧ t.phase ≠ .selecting (some true) ∧
      (s.phase.leaving → t.phase.leaving) := by
  unfold sinkStep at h
  split at h
  · rename_i taken rotating
    rw [rotating]
    split at h
    · obtain rfl := Option.some.inj h
      exact ⟨rfl, not_pending rfl, False.elim⟩
    · obtain rfl := Option.some.inj h
      exact ⟨(decode_phase _ taken).2, (decode_phase _ taken).1, False.elim⟩
  · rename_i taken decoded writing
    rw [writing]
    split at h
    · obtain rfl := Option.some.inj h
      exact ⟨(fail_phase _ _ _).2, (fail_phase _ _ _).1, False.elim⟩
    · obtain rfl := Option.some.inj h
      exact ⟨rfl, not_pending rfl, False.elim⟩
  · split at h
    · obtain rfl := Option.some.inj h
      exact ⟨rfl, not_pending rfl, fun _ => trivial⟩
    · obtain rfl := Option.some.inj h
      cases s.metrics <;> exact ⟨rfl, not_pending rfl, fun _ => trivial⟩
  · cases h

/-- Any other step keeps the flag, leaves no signal on a listener and does not turn a leaving
run back. -/
theorem other_step {input : Input ω} (other : input ≠ .signal)
    (h : step config alloy s input = some t) :
    t.signalled = s.signalled ∧ t.phase ≠ .selecting (some true) ∧
      (s.phase.leaving → t.phase.leaving) := by
  cases input with
  | signal => exact absurd rfl other
  | sink io => exact sink_step h
  | next log? =>
      simp only [step, selectStep] at h
      split at h
      · rename_i log selecting
        obtain rfl := Option.some.inj h
        obtain ⟨signalled, phase, -⟩ := take_phase s log
        rw [selecting]
        exact ⟨signalled, phase, False.elim⟩
      · rename_i selecting
        obtain rfl := Option.some.inj h
        rw [selecting]
        exact ⟨rfl, not_pending rfl, False.elim⟩
      · cases h
  | lock =>
      simp only [step, processStep] at h
      split at h
      · rename_i taken target locking due
        rw [locking]
        split at h
        · obtain rfl := Option.some.inj h
          exact ⟨rfl, not_pending rfl, False.elim⟩
        · obtain rfl := Option.some.inj h
          obtain ⟨phase, signalled⟩ := decode_phase s taken
          exact ⟨signalled, phase, False.elim⟩
      · rename_i taken locking due
        rw [locking]
        obtain rfl := Option.some.inj h
        obtain ⟨phase, signalled⟩ := decode_phase (s.openWindow config taken) taken
        exact ⟨signalled, phase, False.elim⟩
      · cases h
  | metricsStopped =>
      simp only [step, processStep] at h
      split at h
      · obtain rfl := Option.some.inj h
        exact ⟨rfl, not_pending rfl, fun _ => trivial⟩
      · cases h
  | observe unixSeconds =>
      simp only [step, processStep] at h
      split at h
      · rename_i observing
        obtain rfl := Option.some.inj h
        rw [observing]
        exact ⟨rfl, not_pending rfl, False.elim⟩
      · rename_i observing
        obtain rfl := Option.some.inj h
        rw [observing]
        exact ⟨rfl, not_pending rfl, False.elim⟩
      · cases h
  | record seen now =>
      simp only [step, processStep] at h
      split at h
      · rename_i recording
        obtain rfl := Option.some.inj h
        rw [recording]
        exact ⟨rfl, not_pending rfl, False.elim⟩
      · rename_i recording
        obtain rfl := Option.some.inj h
        rw [recording]
        exact ⟨rfl, not_pending rfl, False.elim⟩
      · cases h
  | pollCtrlC result =>
      simp only [step, selectStep] at h
      split at h
      · obtain rfl := Option.some.inj h
        exact ⟨rfl, not_pending rfl, fun _ => trivial⟩
      · rename_i selecting
        obtain rfl := Option.some.inj h
        rw [selecting]
        exact ⟨rfl, not_pending rfl, False.elim⟩
      · cases h
  | shutdown =>
      simp only [step, selectStep] at h
      split at h
      · obtain rfl := Option.some.inj h
        exact ⟨rfl, not_pending rfl, fun _ => trivial⟩
      · cases h
  | connect => exact @reconnect_step _ _ config alloy _ _ .connect h
  | connected result => exact @reconnect_step _ _ config alloy _ _ (.connected result) h
  | subscribed result => exact @reconnect_step _ _ config alloy _ _ (.subscribed result) h
  | slept => exact @reconnect_step _ _ config alloy _ _ .slept h

theorem step_honest {input : Input ω} (h : step config alloy s input = some t) : Honest t := by
  by_cases isSignal : input = .signal
  · subst isSignal
    exact fun _ => (signal_step h).1
  · exact fun selecting => absurd selecting (other_step isSignal h).2.1

/-- A turn with a signal ends in the shutdown or loses the signal. -/
theorem pending_step {input : Input ω} (other : input ≠ .signal)
    (pending : s.phase = .selecting (some true)) (h : step config alloy s input = some t) :
    t.phase.leaving ↔ ∀ log?, input = .next log? →
      ∃ log error, log? = some log ∧ checkMetadata alloy log = .error error := by
  cases input with
  | next log? =>
      simp only [step, selectStep, pending] at h
      cases log? with
      | none =>
          obtain rfl := Option.some.inj h
          constructor
          · exact False.elim
          · intro wins
            obtain ⟨_, _, impossible, -⟩ := wins none rfl
            cases impossible
      | some log =>
          obtain rfl := Option.some.inj h
          obtain ⟨-, -, leaving⟩ := @take_phase _ _ alloy s log
          rw [leaving]
          constructor
          · rintro ⟨error, checked⟩ log? same
            obtain rfl := Input.next.inj same
            exact ⟨log, error, rfl, checked⟩
          · intro wins
            obtain ⟨_, error, same, checked⟩ := wins (some log) rfl
            obtain rfl := Option.some.inj same
            exact ⟨error, checked⟩
  | shutdown =>
      simp only [step, selectStep, pending] at h
      obtain rfl := Option.some.inj h
      refine ⟨fun _ log? same => ?_, fun _ => trivial⟩
      cases same
  | signal => exact absurd rfl other
  | _ =>
      simp only [step, reconnectStep, selectStep, processStep, sinkStep, pending] at h
      cases h

/-- A step out of a state without a swallowed signal swallows none exactly when it heeds. -/
theorem step_heeds {input : Input ω} (honest : Honest s) (good : NotSwallowed s)
    (h : step config alloy s input = some t) : NotSwallowed t ↔ Heeds alloy s input := by
  by_cases isSignal : input = .signal
  · subst isSignal
    obtain ⟨flag, phase⟩ := signal_step h
    rcases phase with ⟨⟨pending, selecting⟩, arrived⟩ | ⟨elsewhere, same⟩
    · constructor
      · exact fun _ => ⟨fun _ => .inr ⟨pending, selecting⟩, fun _ _ impossible => nomatch impossible⟩
      · exact fun _ _ => .inr arrived
    · constructor
      · intro kept
        refine ⟨fun _ => ?_, fun _ _ impossible => nomatch impossible⟩
        rcases kept flag with leaving | arrived
        · rw [same] at leaving
          exact .inl leaving
        · rw [same] at arrived
          exact .inr ⟨true, arrived⟩
      · intro heeds _
        rcases heeds.lands rfl with leaving | selecting
        · rw [same]
          exact .inl leaving
        · exact absurd selecting elsewhere
  · obtain ⟨flag, quiet, stays⟩ := other_step isSignal h
    constructor
    · intro kept
      refine ⟨fun impossible => absurd impossible isSignal, fun pending => ?_⟩
      rcases kept (flag.trans (honest pending)) with leaving | arrived
      · exact (pending_step isSignal pending h).mp leaving
      · exact absurd arrived quiet
    · intro heeds signalled
      left
      rcases good (flag.symm.trans signalled) with leaving | pending
      · exact stays leaving
      · exact (pending_step isSignal pending h).mpr (heeds.wins pending)

end Steps

/-- No state of a run has swallowed a signal exactly when each of its steps heeds: each Ctrl-C
lands on a listener, or on a run that is leaving anyway, and the stream wins no turn that
has a signal. -/
theorem never_swallowed_iff [EventSink σ ω] {config : FrontfillConfig} {alloy : Alloy}
    {storage : Except String σ} {runtime : Except String FrontfillMetrics} {s t : State σ ω}
    {inputs : List (Input ω)} (start : launch config storage runtime = .ok s)
    (run : Machine.exec (step config alloy) s inputs = some t) :
    (∀ u, Machine.Visits (step config alloy) s inputs u → NotSwallowed u) ↔
      ∀ u input, Machine.Takes (step config alloy) s inputs u input → Heeds alloy u input := by
  obtain ⟨-, -, phase, -, signalled, -⟩ := launch_start start
  have honest : Honest s := fun impossible => by
    rw [phase] at impossible
    cases impossible
  have good : NotSwallowed s := fun impossible => by
    rw [signalled] at impossible
    cases impossible
  have keeps : ∀ (a : State σ ω) (i : Input ω) (b : State σ ω), True → Honest a →
      step config alloy a i = some b → Honest b :=
    fun _ _ _ _ _ moved => step_honest moved
  exact Machine.always_iff _ keeps (fun _ _ _ _ honest good moved => step_heeds honest good moved)
    (fun _ _ => trivial) run honest good

section Example

theorem never_swallowed_stopped : ∃ t, live (connecting ++ stopping) = some t ∧
    ((∀ u, Machine.Visits (step liveConfig Reference.alloy) liveStart (connecting ++ stopping) u →
        NotSwallowed u) ↔
      ∀ u input, Machine.Takes (step liveConfig Reference.alloy) liveStart
        (connecting ++ stopping) u input → Heeds Reference.alloy u input) := by
  have returns : (live (connecting ++ stopping)).isSome := by rw [live_connecting]; rfl
  obtain ⟨t, run⟩ := Option.isSome_iff_exists.mp returns
  exact ⟨t, run, never_swallowed_iff liveStart_launched run⟩

/-- Ctrl-C while a log is processed: the run takes the next log as if nothing had happened. -/
def ignoring : List (Input ParquetIo) :=
  connecting ++ [.pollCtrlC (.ok ()), .next (some (cancelled 10 0)), .signal, .lock, .sink sinkOk,
    .next (some (cancelled 11 0))]

theorem signal_swallowed : ∃ t, live ignoring = some t ∧ t.signalled = true ∧
    t.received = [cancelled 10 0, cancelled 11 0] ∧ ¬NotSwallowed t := by
  have returns : (live ignoring).isSome := by rw [ignoring, live_connecting]; rfl
  obtain ⟨t, run⟩ := Option.isSome_iff_exists.mp returns
  have heard := run
  rw [ignoring, live_connecting] at heard
  have flag : t.signalled = true := seen State.signalled heard rfl
  have phase : t.phase = .locking
      { log := cancelled 11 0, blockNumber := 11, txHash := Reference.alloy.hashToString ⟨2⟩,
        logIndex := 0 } := seen State.phase heard rfl
  refine ⟨t, run, flag, seen State.received heard rfl, ?_⟩
  intro kept
  rcases kept flag with leaving | pending
  · rw [phase] at leaving
    exact leaving
  · rw [phase] at pending
    cases pending

end Example

end PolymarketIndexer.Frontfill
