import PolymarketIndexer.Frontfill.Ingest
import PolymarketIndexer.Library.Backoff

/-! # How long the run waits

An attempt fails when the connection or the subscription does, and a stream that ends counts
as one more failure. The waits are those of a capped doubling, although the attempts are counted
in 32 bits: the cap is reached long before.
-/

namespace PolymarketIndexer.Frontfill

open Backoff (Outcome streak waits doubling)

variable {σ ω : Type}

/-- What an input says about the attempt to get a stream. -/
def Input.outcome : Input ω → Option Outcome
  | .connected (.error _) | .subscribed (.error _) | .next none => some .failed
  | .subscribed (.ok _) => some .succeeded
  | _ => none

/-- The seconds the run has slept when it wakes. -/
def State.slept (s : State σ ω) : Input ω → Option Nat
  | .slept => match s.phase with
      | .backoff seconds => some seconds
      | _ => none
  | _ => none

/-- The wait the run is in. -/
def Phase.waiting : Phase → List Nat
  | .backoff seconds => [seconds]
  | _ => []

theorem reconnectDelay_doubling (attempt : Nat) :
    reconnectDelay (min attempt (2 ^ 32 - 1)) = doubling 5 attempt := by
  unfold reconnectDelay doubling
  rw [Nat.one_shiftLeft, Nat.min_assoc, Nat.min_eq_right (by decide : 5 ≤ 2 ^ 32 - 1)]

section Parts

variable (s : State σ ω) (alloy : Alloy)

theorem fail_paced (count : FrontfillMetrics → FrontfillMetrics) (error : String) :
    (s.fail count error).reconnectAttempt = s.reconnectAttempt ∧
      (s.fail count error).phase.waiting = [] := by
  unfold State.fail
  cases s.metrics <;> exact ⟨rfl, rfl⟩

theorem take_paced (log : Log) :
    (s.take alloy log).reconnectAttempt = s.reconnectAttempt ∧
      (s.take alloy log).phase.waiting = [] := by
  unfold State.take
  split
  · exact fail_paced _ _ _
  · cases s.metrics <;> exact ⟨rfl, rfl⟩

theorem decode_paced (taken : Taken) :
    (s.decode alloy taken).reconnectAttempt = s.reconnectAttempt ∧
      (s.decode alloy taken).phase.waiting = [] := by
  unfold State.decode
  split
  · exact fail_paced _ _ _
  · exact ⟨rfl, rfl⟩
  · cases s.metrics <;> exact ⟨rfl, rfl⟩

end Parts

section Steps

variable {config : FrontfillConfig} {alloy : Alloy} {s t : State σ ω} {input : Input ω}

/-- What a step does to the count of failures and to the waits. -/
inductive Paces (s : State σ ω) (input : Input ω) (t : State σ ω) : Prop where
  | same (outcome : input.outcome = none) (attempt : t.reconnectAttempt = s.reconnectAttempt)
      (waits : (s.slept input).toList ++ t.phase.waiting = s.phase.waiting)
  | failed (outcome : input.outcome = some .failed) (before : s.phase.waiting = [])
      (attempt : t.reconnectAttempt = min (s.reconnectAttempt + 1) (2 ^ 32 - 1))
      (waits : t.phase.waiting = [reconnectDelay s.reconnectAttempt])
  | succeeded (outcome : input.outcome = some .succeeded) (before : s.phase.waiting = [])
      (attempt : t.reconnectAttempt = 0) (waits : t.phase.waiting = [])

theorem reconnect_paces (moved : reconnectStep config alloy s input = some t) :
    Paces s input t := by
  cases input with
  | connect =>
      simp only [reconnectStep] at moved
      split at moved
      · rename_i starting _
        obtain rfl := Option.some.inj moved
        exact .same rfl rfl (by rw [starting]; rfl)
      · rename_i starting _
        obtain rfl := Option.some.inj moved
        exact .same rfl rfl (by rw [starting]; rfl)
      · cases moved
  | connected result =>
      simp only [reconnectStep] at moved
      split at moved
      · rename_i connecting
        obtain rfl := Option.some.inj moved
        exact .failed rfl (by rw [connecting]; rfl) rfl rfl
      · rename_i connecting _
        obtain rfl := Option.some.inj moved
        exact .same rfl rfl (by rw [connecting]; rfl)
      · rename_i connecting _
        obtain rfl := Option.some.inj moved
        exact .same rfl rfl (by rw [connecting]; rfl)
      · cases moved
  | subscribed result =>
      simp only [reconnectStep] at moved
      split at moved
      · rename_i subscribing
        obtain rfl := Option.some.inj moved
        exact .failed rfl (by rw [subscribing]; rfl) rfl rfl
      · rename_i subscribing
        obtain rfl := Option.some.inj moved
        exact .succeeded rfl (by rw [subscribing]; rfl) rfl rfl
      · cases moved
  | slept =>
      simp only [reconnectStep] at moved
      split at moved
      · rename_i seconds waiting
        obtain rfl := Option.some.inj moved
        exact .same rfl rfl (by simp [State.slept, waiting, Phase.waiting])
      · cases moved
  | _ => cases moved

theorem select_paces (moved : selectStep alloy s input = some t) : Paces s input t := by
  cases input with
  | pollCtrlC result =>
      simp only [selectStep] at moved
      split at moved
      · rename_i selecting
        obtain rfl := Option.some.inj moved
        exact .same rfl rfl (by rw [selecting]; rfl)
      · rename_i selecting
        obtain rfl := Option.some.inj moved
        exact .same rfl rfl (by rw [selecting]; rfl)
      · cases moved
  | next log =>
      simp only [selectStep] at moved
      split at moved
      · rename_i selecting
        obtain rfl := Option.some.inj moved
        obtain ⟨attempt, waiting⟩ := take_paced s alloy _
        exact .same rfl attempt (by rw [waiting, selecting]; rfl)
      · rename_i selecting
        obtain rfl := Option.some.inj moved
        exact .failed rfl (by rw [selecting]; rfl) rfl rfl
      · cases moved
  | shutdown =>
      simp only [selectStep] at moved
      split at moved
      · rename_i selecting
        obtain rfl := Option.some.inj moved
        exact .same rfl rfl (by rw [selecting]; rfl)
      · cases moved
  | _ => cases moved

theorem signal_paces (moved : signalStep s = some t) : Paces s .signal t := by
  unfold signalStep at moved
  split at moved
  · cases moved
  · rename_i selecting
    split at moved
    · obtain rfl := Option.some.inj moved
      exact .same rfl rfl (by rw [selecting]; rfl)
    · cases moved
  · split at moved
    · obtain rfl := Option.some.inj moved
      exact .same rfl rfl rfl
    · cases moved

variable [EventSink σ ω]

theorem sink_paces {io : ω} (moved : sinkStep config alloy s io = some t) :
    Paces s (.sink io) t := by
  unfold sinkStep at moved
  split at moved
  · rename_i taken rotating
    split at moved
    · obtain rfl := Option.some.inj moved
      exact .same rfl rfl (by rw [rotating]; rfl)
    · obtain rfl := Option.some.inj moved
      obtain ⟨attempt, waiting⟩ := decode_paced _ alloy taken
      exact .same rfl attempt (by rw [waiting, rotating]; rfl)
  · rename_i taken decoded writing
    split at moved
    · obtain rfl := Option.some.inj moved
      obtain ⟨attempt, waiting⟩ := fail_paced _ countWriteError _
      exact .same rfl attempt (by rw [waiting, writing]; rfl)
    · obtain rfl := Option.some.inj moved
      exact .same rfl rfl (by rw [writing]; rfl)
  · rename_i closing
    split at moved
    · obtain rfl := Option.some.inj moved
      exact .same rfl rfl (by rw [closing]; rfl)
    · obtain rfl := Option.some.inj moved
      cases s.metrics <;> exact .same rfl rfl (by rw [closing]; rfl)
  · cases moved

theorem process_paces (moved : processStep config alloy s input = some t) : Paces s input t := by
  cases input with
  | observe unixSeconds =>
      simp only [processStep] at moved
      split at moved
      · rename_i observing
        obtain rfl := Option.some.inj moved
        exact .same rfl rfl (by rw [observing]; rfl)
      · rename_i observing
        obtain rfl := Option.some.inj moved
        exact .same rfl rfl (by rw [observing]; rfl)
      · cases moved
  | record seen now =>
      simp only [processStep] at moved
      split at moved
      · rename_i recording
        obtain rfl := Option.some.inj moved
        exact .same rfl rfl (by rw [recording]; rfl)
      · rename_i recording
        obtain rfl := Option.some.inj moved
        exact .same rfl rfl (by rw [recording]; rfl)
      · cases moved
  | lock =>
      simp only [processStep] at moved
      split at moved
      · rename_i taken target locking window
        split at moved
        · obtain rfl := Option.some.inj moved
          exact .same rfl rfl (by rw [locking]; rfl)
        · obtain rfl := Option.some.inj moved
          obtain ⟨attempt, waiting⟩ := decode_paced s alloy taken
          exact .same rfl attempt (by rw [waiting, locking]; rfl)
      · rename_i taken locking window
        obtain rfl := Option.some.inj moved
        obtain ⟨attempt, waiting⟩ := decode_paced (s.openWindow config taken) alloy taken
        exact .same rfl attempt (by rw [waiting, locking]; rfl)
      · cases moved
  | sink io => exact sink_paces moved
  | metricsStopped =>
      simp only [processStep] at moved
      split at moved
      · rename_i exiting
        obtain rfl := Option.some.inj moved
        exact .same rfl rfl (by rw [exiting]; rfl)
      · cases moved
  | _ => cases moved

theorem step_paces (moved : step config alloy s input = some t) : Paces s input t := by
  unfold step at moved
  cases input with
  | connect | connected | subscribed | slept => exact reconnect_paces moved
  | pollCtrlC | next | shutdown => exact select_paces moved
  | observe | record | lock | sink | metricsStopped => exact process_paces moved
  | signal => exact signal_paces moved

end Steps

section Run

variable [EventSink σ ω] {config : FrontfillConfig} {alloy : Alloy} {s t : State σ ω}

/-- How a run stands after its attempts and the sleeps it has finished. -/
structure Paced (outcomes : List Outcome) (slept : List Nat) (s : State σ ω) : Prop where
  attempt : s.reconnectAttempt = min (streak outcomes) (2 ^ 32 - 1)
  waits : slept ++ s.phase.waiting = waits (doubling 5) outcomes

omit [EventSink σ ω] in
theorem Paced.step {outcomes : List Outcome} {slept : List Nat} {input : Input ω}
    (paced : Paced outcomes slept s) (paces : Paces s input t) :
    Paced (outcomes ++ input.outcome.toList) (slept ++ (s.slept input).toList) t := by
  have awake : s.phase.waiting = [] → s.slept input = none := by
    intro free
    unfold State.slept
    split
    · split
      · rename_i waiting
        rw [waiting] at free
        cases free
      · rfl
    · rfl
  cases paces with
  | same outcome attempt waiting =>
      refine ⟨?_, ?_⟩
      · rw [attempt, outcome, Option.toList_none, List.append_nil, paced.attempt]
      · rw [List.append_assoc, waiting, outcome, Option.toList_none, List.append_nil, paced.waits]
  | failed outcome before attempt waiting =>
      have slept_before := paced.waits
      rw [before, List.append_nil] at slept_before
      refine ⟨?_, ?_⟩
      · rw [attempt, outcome, Option.toList_some, Backoff.streak_failed, paced.attempt]
        omega
      · rw [awake before, waiting, outcome, Option.toList_none, Option.toList_some,
          List.append_nil, Backoff.waits_failed, slept_before, paced.attempt,
          reconnectDelay_doubling]
  | succeeded outcome before attempt waiting =>
      have slept_before := paced.waits
      rw [before, List.append_nil] at slept_before
      refine ⟨?_, ?_⟩
      · rw [attempt, outcome, Option.toList_some, Backoff.streak_succeeded, Nat.zero_min]
      · rw [awake before, waiting, outcome, Option.toList_none, Option.toList_some,
          List.append_nil, List.append_nil, Backoff.waits_succeeded, slept_before]

theorem run_paced {inputs : List (Input ω)} (fresh : s.reconnectAttempt = 0)
    (starting : s.phase = .starting)
    (run : Machine.exec (Frontfill.step config alloy) s inputs = some t) :
    Paced (inputs.filterMap Input.outcome)
      (Machine.outputs (Frontfill.step config alloy) State.slept s inputs) t := by
  induction inputs using List.reverseRecOn generalizing t with
  | nil =>
      cases run
      exact ⟨by rw [fresh]; rfl, by rw [starting]; rfl⟩
  | append_singleton inputs input ih =>
      obtain ⟨u, before, last⟩ := (Machine.exec_snoc _).mp run
      have paced := (ih before).step (step_paces last)
      rw [List.filterMap_append, Machine.outputs_snoc _ _ before]
      cases outcome : input.outcome with
      | none => simpa [List.filterMap_cons, outcome] using paced
      | some kind => simpa [List.filterMap_cons, outcome] using paced

omit [EventSink σ ω] in
theorem launch_fresh {storage : Except String σ} {runtime : Except String FrontfillMetrics}
    (launched : launch config storage runtime = .ok s) : s.reconnectAttempt = 0 := by
  unfold launch at launched
  by_cases zero : config.flushBlocks = 0
  · rw [if_pos zero] at launched
    cases launched
  · rw [if_neg zero] at launched
    simp only [bind, Except.bind, pure, Except.pure] at launched
    split at launched
    · cases launched
    · split at launched
      · cases launched
      · obtain rfl := Except.ok.inj launched
        rfl

/-- What a run sleeps is what its failures ask for, and nothing else: 1, 2, 4, 8, 16 and then 32
seconds each time, from the start again after a subscription. Every streak of failures, however
long, takes as long as the doubling says. -/
theorem reconnects_back_off {storage : Except String σ} {runtime : Except String FrontfillMetrics}
    {inputs : List (Input ω)} (launched : launch config storage runtime = .ok s)
    (run : Machine.exec (Frontfill.step config alloy) s inputs = some t) :
    let waited := Machine.outputs (Frontfill.step config alloy) State.slept s inputs ++
      t.phase.waiting
    let outcomes := inputs.filterMap Input.outcome
    waited = waits (doubling 5) outcomes ∧ (∀ seconds ∈ waited, 1 ≤ seconds ∧ seconds ≤ 32) ∧
    ∀ past count, outcomes = past ++ List.replicate count .failed → streak past = 0 →
      waited.sum + 1 = (waits (doubling 5) past).sum + 2 ^ min count 5 + (count - 5) * 32 := by
  intro waited outcomes
  have paced := run_paced (launch_fresh launched) (launch_start launched).2.2.1 run
  have same : waited = waits (doubling 5) outcomes := paced.waits
  refine ⟨same, ?_, ?_⟩
  · intro seconds member
    rw [same] at member
    obtain ⟨n, rfl⟩ := Backoff.mem_waits member
    exact ⟨Nat.one_le_two_pow, Backoff.doubling_le 5 n⟩
  · intro past count split afresh
    rw [same, split, Backoff.waits_streak past afresh, List.sum_append]
    have streak := Backoff.sum_doubling 5 count
    omega

end Run

section Example

/-- A provider that does not answer, and does not let the run subscribe when it does. -/
def refusing : List (Input ParquetIo) :=
  [.connect, .connected (.error "refused"), .slept, .connect, .connected (.ok ()),
    .subscribed (.error "limited"), .slept, .connect, .connected (.error "refused")]

theorem reconnects_back_off_refusing : ∃ t, live refusing = some t ∧
    Machine.outputs (step liveConfig Reference.alloy) State.slept liveStart refusing ++
      t.phase.waiting = [1, 2, 4] := by
  obtain ⟨filter, filters⟩ := buildFilter_ok Reference.addresses_parse liveConfig.startBlock
  have connects : buildWsConnect liveConfig = .ok _ := rfl
  have returns : (live refusing).isSome := by
    simp only [live, refusing, Machine.exec, step, reconnectStep, liveStart, connects, filters,
      Option.bind_some, State.backOff]
    rfl
  obtain ⟨t, run⟩ := Option.isSome_iff_exists.mp returns
  exact ⟨t, run, (reconnects_back_off liveStart_launched run).1⟩

end Example

end PolymarketIndexer.Frontfill
