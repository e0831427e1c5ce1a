import PolymarketIndexer.Frontfill.Teardown
import PolymarketIndexer.Library.Simulation

/-! # Metrics leave the run as it is

A run with metrics takes a few steps more: it observes a log before it locks the sink, an event
before it writes it, and it waits for the runtime before it returns. With these steps left
out it is a run without metrics, and every such run arises that way.
-/

namespace PolymarketIndexer.Frontfill

variable {σ ω : Type}

/-- The phase that comes after what is only done for the metrics. -/
def Phase.settled : Phase → Phase
  | .observing taken | .recording taken => .locking taken
  | .observingType taken decoded | .recordingType taken decoded => .writing taken decoded
  | .exiting result => .returned result
  | phase => phase

/-- The state of the same run without metrics. -/
def State.bare (s : State σ ω) : State σ ω := { s with metrics := none, phase := s.phase.settled }

/-- A run and the same run without metrics. A signal that comes while the run waits for its
metrics to stop finds the other one gone, so then only what was done is the same. -/
structure Shadow (s u : State σ ω) : Prop where
  phase : u.phase = s.phase.settled
  sink : u.sink = s.sink
  trace : u.trace = s.trace
  bare : (∀ result, u.phase ≠ .returned result) → u = s.bare

theorem Shadow.of_bare (s : State σ ω) : Shadow s s.bare := ⟨rfl, rfl, rfl, fun _ => rfl⟩

section Parts

variable (s : State σ ω)

theorem bare_fail (count : FrontfillMetrics → FrontfillMetrics) (error : String) :
    (s.fail count error).bare = s.bare.fail count error := by
  unfold State.fail
  cases s.metrics <;> rfl

theorem bare_take (alloy : Alloy) (log : Log) :
    (s.take alloy log).bare = s.bare.take alloy log := by
  unfold State.take
  cases checkMetadata alloy log with
  | error error => exact bare_fail _ _ _
  | ok taken => cases s.metrics <;> simp [State.bare, State.note, Phase.settled]

theorem bare_decode (alloy : Alloy) (taken : Taken) :
    (s.decode alloy taken).bare = s.bare.decode alloy taken := by
  unfold State.decode
  rcases decodeLog alloy taken.log with error | _ | decoded
  · exact bare_fail _ _ _
  · rfl
  · cases s.metrics <;> simp [State.bare, Phase.settled]

end Parts

section Steps

variable {config : FrontfillConfig} {alloy : Alloy} {s : State σ ω} (input : Input ω)

theorem reconnect_bare (settled : s.phase.settled = s.phase) :
    reconnectStep config alloy s.bare input =
      (reconnectStep config alloy s input).map State.bare := by
  have phase : s.bare.phase = s.phase := settled
  cases input with
  | connect =>
      simp only [reconnectStep]
      rw [phase]
      split <;> rfl
  | connected result =>
      simp only [reconnectStep]
      rw [phase]
      split <;> rfl
  | subscribed result =>
      simp only [reconnectStep]
      rw [phase]
      split <;> rfl
  | slept =>
      simp only [reconnectStep]
      rw [phase]
      split <;> rfl
  | _ => rfl

theorem select_bare (settled : s.phase.settled = s.phase) :
    selectStep alloy s.bare input = (selectStep alloy s input).map State.bare := by
  have phase : s.bare.phase = s.phase := settled
  cases input with
  | pollCtrlC result =>
      simp only [selectStep]
      rw [phase]
      split <;> rfl
  | next log =>
      simp only [selectStep]
      rw [phase]
      split
      · exact congrArg some (bare_take _ _ _).symm
      · rfl
      · rfl
  | shutdown =>
      simp only [selectStep]
      rw [phase]
      split <;> rfl
  | _ => rfl

theorem signal_bare (settled : s.phase.settled = s.phase) :
    signalStep s.bare = (signalStep s).map State.bare := by
  have phase : s.bare.phase = s.phase := settled
  unfold signalStep
  rw [phase]
  split
  · rfl
  · by_cases installed : s.handlerInstalled = true <;> simp [State.bare, installed, Phase.settled]
  · by_cases installed : s.handlerInstalled = true <;> simp [State.bare, installed, settled]

variable [EventSink σ ω]

theorem sink_bare (settled : s.phase.settled = s.phase) (io : ω) :
    sinkStep config alloy s.bare io = (sinkStep config alloy s io).map State.bare := by
  have phase : s.bare.phase = s.phase := settled
  unfold sinkStep
  rw [phase]
  split
  · rename_i taken rotating
    have same : s.bare.sink = s.sink := rfl
    rw [same]
    split
    · rfl
    · rw [Option.map_some, bare_decode]
      simp only [State.bare, State.openWindow, State.measure, State.note, settled, Option.map_none]
  · rename_i taken decoded writing
    have same : s.bare.sink = s.sink := rfl
    rw [same]
    split
    · rw [Option.map_some, bare_fail]
      simp only [State.bare, State.measure, State.note, settled, Option.map_none]
    · rfl
  · rename_i closing
    have same : s.bare.sink = s.sink := rfl
    rw [same]
    split
    · rfl
    · cases s.metrics <;> simp [State.bare, State.note, State.measure, Phase.settled]
  · rfl

theorem process_bare (settled : s.phase.settled = s.phase) :
    processStep config alloy s.bare input =
      (processStep config alloy s input).map State.bare := by
  have phase : s.bare.phase = s.phase := settled
  have observing : ∀ taken, s.phase ≠ .observing taken ∧ s.phase ≠ .recording taken ∧
      ∀ decoded, s.phase ≠ .observingType taken decoded ∧
        s.phase ≠ .recordingType taken decoded := by
    intro taken
    refine ⟨?_, ?_, fun decoded => ⟨?_, ?_⟩⟩ <;>
    · intro at_
      rw [at_] at settled
      cases settled
  cases input with
  | observe unixSeconds =>
      simp only [processStep]
      rw [phase]
      split
      · rename_i taken at_
        exact absurd at_ (observing taken).1
      · rename_i taken decoded at_
        exact absurd at_ ((observing taken).2.2 decoded).1
      · rfl
  | record seen now =>
      simp only [processStep]
      rw [phase]
      split
      · rename_i taken at_
        exact absurd at_ (observing taken).2.1
      · rename_i taken decoded at_
        exact absurd at_ ((observing taken).2.2 decoded).2
      · rfl
  | lock =>
      have window : s.bare.nextRotationBlock = s.nextRotationBlock := rfl
      simp only [processStep]
      rw [phase, window]
      split
      · split
        · rfl
        · exact congrArg some (bare_decode _ _ _).symm
      · exact congrArg some (bare_decode (s.openWindow config _) _ _).symm
      · rfl
  | sink io => exact sink_bare settled io
  | metricsStopped =>
      simp only [processStep]
      rw [phase]
      split
      · rename_i result at_
        rw [at_] at settled
        cases settled
      · rfl
  | _ => rfl

/-- Where nothing is to be done for the metrics, the two runs take the same steps. -/
theorem step_bare (settled : s.phase.settled = s.phase) :
    step config alloy s.bare input = (step config alloy s input).map State.bare := by
  unfold step
  cases input with
  | connect | connected | subscribed | slept => exact reconnect_bare _ settled
  | pollCtrlC | next | shutdown => exact select_bare _ settled
  | observe | record | lock | sink | metricsStopped => exact process_bare _ settled
  | signal => exact signal_bare settled

end Steps

section Run

variable [EventSink σ ω] {config : FrontfillConfig} {alloy : Alloy} {s t u v : State σ ω}
  {input : Input ω}

/-- A step that is taken for the metrics only. -/
def Input.forMetrics : Input ω → Bool
  | .observe _ | .record _ _ | .metricsStopped => true
  | _ => false

/-- Before a settled phase only the metrics are served, but a signal can come. -/
theorem unsettled_step (unsettled : s.phase.settled ≠ s.phase)
    (moved : step config alloy s input = some t) :
    t.bare = s.bare ∨
      (input = .signal ∧ s.handlerInstalled = true ∧ t = { s with signalled := true }) := by
  cases input with
  | observe _ =>
      simp only [step, processStep] at moved
      split at moved
      · rename_i taken phase
        obtain rfl := Option.some.inj moved
        exact .inl (by simp [State.bare, phase, Phase.settled, State.measure])
      · rename_i taken decoded phase
        obtain rfl := Option.some.inj moved
        exact .inl (by simp [State.bare, phase, Phase.settled, State.measure])
      · cases moved
  | record _ _ =>
      simp only [step, processStep] at moved
      split at moved
      · rename_i taken phase
        obtain rfl := Option.some.inj moved
        exact .inl (by simp [State.bare, phase, Phase.settled, State.measure])
      · rename_i taken decoded phase
        obtain rfl := Option.some.inj moved
        exact .inl (by simp [State.bare, phase, Phase.settled, State.measure])
      · cases moved
  | metricsStopped =>
      simp only [step, processStep] at moved
      split at moved
      · rename_i result phase
        obtain rfl := Option.some.inj moved
        exact .inl (by simp [State.bare, phase, Phase.settled])
      · cases moved
  | signal =>
      simp only [step, signalStep] at moved
      split at moved
      · cases moved
      · rename_i listening phase
        rw [phase] at unsettled
        exact absurd rfl unsettled
      · split at moved
        · rename_i installed
          exact .inr ⟨rfl, installed, (Option.some.inj moved).symm⟩
        · cases moved
  | _ =>
      cases phase : s.phase with
      | observing _ | recording _ | observingType _ _ | recordingType _ _ | exiting _ =>
          simp [step, reconnectStep, selectStep, processStep, sinkStep, phase] at moved
      | _ =>
          rw [phase] at unsettled
          exact absurd rfl unsettled

/-- The run without metrics follows, or has nothing to do. -/
theorem Shadow.follows (shadow : Shadow s u) (moved : step config alloy s input = some t) :
    ∃ inputs v, (inputs = [] ∨ inputs = [input]) ∧
      Machine.exec (step config alloy) u inputs = some v ∧ Shadow t v := by
  by_cases settled : s.phase.settled = s.phase
  · have alive : ∀ result, u.phase ≠ .returned result := by
      intro result returned
      rw [shadow.phase, settled] at returned
      exact step_alive moved result returned
    obtain rfl := shadow.bare alive
    have follows : step config alloy s.bare input = some t.bare := by
      rw [step_bare input settled, moved, Option.map_some]
    exact ⟨[input], t.bare, .inr rfl,
      (Machine.exec_cons _).mpr ⟨t.bare, follows, rfl⟩, Shadow.of_bare t⟩
  · rcases unsettled_step settled moved with same | ⟨rfl, installed, rfl⟩
    · refine ⟨[], u, .inl rfl, rfl, ?_, ?_, ?_, ?_⟩
      · exact shadow.phase.trans (congrArg State.phase same :).symm
      · exact shadow.sink.trans (congrArg State.sink same :).symm
      · exact shadow.trace.trans (congrArg State.trace same :).symm
      · intro alive
        rw [same]
        exact shadow.bare alive
    · by_cases gone : ∃ result, u.phase = .returned result
      · obtain ⟨result, returned⟩ := gone
        exact ⟨[], u, .inl rfl, rfl, shadow.phase, shadow.sink, shadow.trace,
          fun alive => absurd returned (alive result)⟩
      · obtain rfl := shadow.bare (not_exists.mp gone)
        refine ⟨[.signal], _, .inr rfl, (Machine.exec_cons _).mpr ⟨_, ?_, rfl⟩,
          Shadow.of_bare _⟩
        cases phase : s.phase <;>
          simp_all [step, signalStep, State.bare, Phase.settled]

/-- What is done for the metrics can always be done at once. -/
theorem settles (t : State σ ω) :
    ∃ inputs t', Machine.exec (step config alloy) t inputs = some t' ∧
      (∀ i ∈ inputs, i.forMetrics = true) ∧ t'.bare = t.bare ∧
      t'.phase.settled = t'.phase := by
  cases phase : t.phase with
  | observing taken | observingType taken decoded =>
      exact ⟨[.observe 0, .record 0 0], _, by simp [Machine.exec, step, processStep, phase]; rfl,
        by simp [Input.forMetrics], by simp [State.bare, State.measure, phase, Phase.settled], rfl⟩
  | recording taken | recordingType taken decoded =>
      exact ⟨[.record 0 0], _, by simp [Machine.exec, step, processStep, phase]; rfl,
        by simp [Input.forMetrics], by simp [State.bare, State.measure, phase, Phase.settled], rfl⟩
  | exiting result =>
      exact ⟨[.metricsStopped], _, by simp [Machine.exec, step, processStep, phase]; rfl,
        by simp [Input.forMetrics], by simp [State.bare, phase, Phase.settled], rfl⟩
  | _ => exact ⟨[], t, rfl, by simp, rfl, by rw [phase]; rfl⟩

/-- A settled phase takes no step for the metrics. -/
theorem settled_step (settled : s.phase.settled = s.phase)
    (moved : step config alloy s input = some t) : input.forMetrics = false := by
  cases input with
  | observe | record | metricsStopped =>
      cases phase : s.phase <;> simp_all [step, processStep, Phase.settled]
  | _ => rfl

/-- The run with metrics follows too: it does what there is to do for them at once. -/
theorem Shadow.leads (shadow : Shadow s u) (settled : s.phase.settled = s.phase)
    (moved : step config alloy u input = some v) :
    ∃ inputs t, inputs.filter (fun i => !i.forMetrics) = [input] ∧
      Machine.exec (step config alloy) s inputs = some t ∧
      (Shadow t v ∧ t.phase.settled = t.phase) := by
  obtain rfl := shadow.bare (step_alive moved)
  rw [step_bare input settled] at moved
  obtain ⟨t, first, rfl⟩ := Option.map_eq_some_iff.mp moved
  obtain ⟨extra, t', rest, forMetrics, same, settled'⟩ := @settles _ _ _ config alloy t
  refine ⟨input :: extra, t', ?_, (Machine.exec_cons _).mpr ⟨t, first, rest⟩,
    same ▸ Shadow.of_bare t', settled'⟩
  have none_left : extra.filter (fun i => !i.forMetrics) = [] := by
    simpa [List.filter_eq_nil_iff] using forMetrics
  simp [settled_step settled first, none_left]

omit [EventSink σ ω] in
theorem launch_bare {storage : Except String σ} {metrics : FrontfillMetrics} {start : State σ ω}
    (enabled : config.metricsEnabled = true) (runtime : Except String FrontfillMetrics)
    (launched : launch config storage (.ok metrics) = .ok start) :
    launch { config with metricsEnabled := false } storage runtime = .ok start.bare := by
  unfold launch at launched ⊢
  by_cases zero : config.flushBlocks = 0
  · rw [if_pos zero] at launched
    cases launched
  · rw [if_neg zero, metricsRuntime, if_pos enabled] at launched
    rw [if_neg zero]
    simp only [bind, Except.bind, pure, Except.pure] at launched ⊢
    split at launched
    · cases launched
    · obtain rfl := Except.ok.inj launched
      rfl

omit [EventSink σ ω] in
theorem filter_flatten_shown {is : List (Input ω)} {jss : List (List (Input ω))}
    (shown : List.Forall₂ (fun i js => js.filter (fun j => !j.forMetrics) = [i]) is jss) :
    jss.flatten.filter (fun j => !j.forMetrics) = is := by
  induction shown with
  | nil => rfl
  | cons first _ ih => rw [List.flatten_cons, List.filter_append, first, ih, List.singleton_append]

omit [EventSink σ ω] in
theorem flatten_sublist {is : List (Input ω)} {jss : List (List (Input ω))}
    (shown : List.Forall₂ (fun i js => js = [] ∨ js = [i]) is jss) :
    jss.flatten.Sublist is := by
  induction shown with
  | nil => exact List.Sublist.refl _
  | cons first _ ih =>
      rcases first with rfl | rfl
      · exact ih.cons _
      · exact ih.cons_cons _

/-- Turning the metrics on changes neither what a run can do to its sink nor how it can end:
every run with metrics does what a run without them does on some of its inputs, and every run
without them is what is left of a run with them once the steps for the metrics are taken out. -/
theorem metrics_transparent (enabled : config.metricsEnabled = true)
    (storage : Except String σ) (metrics : FrontfillMetrics)
    (runtime : Except String FrontfillMetrics) {start : State σ ω} (launched : launch config storage (.ok metrics) = .ok start) :
    ∃ bare : State σ ω,
      launch { config with metricsEnabled := false } storage runtime = .ok bare ∧
      (∀ inputs s, Machine.exec (step config alloy) start inputs = some s →
        ∃ inputs' u, inputs'.Sublist inputs ∧
          Machine.exec (step { config with metricsEnabled := false } alloy) bare inputs' = some u ∧
          u.phase = s.phase.settled ∧ u.sink = s.sink ∧ u.trace = s.trace) ∧
      (∀ inputs' u,
        Machine.exec (step { config with metricsEnabled := false } alloy) bare inputs' = some u →
        ∃ inputs s, inputs.filter (fun i => !i.forMetrics) = inputs' ∧
          Machine.exec (step config alloy) start inputs = some s ∧
          u.phase = s.phase ∧ u.sink = s.sink ∧ u.trace = s.trace) := by
  have launches := launch_bare enabled runtime launched
  have starting : start.phase = .starting := (launch_start launched).2.2.1
  refine ⟨start.bare, launches, ?_, ?_⟩
  · intro inputs s run
    obtain ⟨jss, u, shown, moves, shadow⟩ := Machine.exec_simulates
      (fun s u i t shadow moved => Shadow.follows shadow moved) (Shadow.of_bare start) run
    exact ⟨jss.flatten, u, flatten_sublist shown, moves, shadow.phase, shadow.sink, shadow.trace⟩
  · intro inputs' u run
    have along : ∀ u s i v, (Shadow s u ∧ s.phase.settled = s.phase) →
        step config alloy u i = some v →
          ∃ (js : List (Input ω)) (t : State σ ω), js.filter (fun j => !j.forMetrics) = [i] ∧
          Machine.exec (step config alloy) s js = some t ∧ Shadow t v ∧ t.phase.settled = t.phase :=
      fun u s i v related moved => related.1.leads related.2 moved
    obtain ⟨jss, s, shown, moves, shadow, settled⟩ := Machine.exec_simulates along
      ⟨Shadow.of_bare start, by rw [starting]; rfl⟩ run
    exact ⟨jss.flatten, s, filter_flatten_shown shown, moves, shadow.phase.trans settled,
      shadow.sink, shadow.trace⟩

end Run

section Example

/-- The log that is measured on its way to its file reaches it without metrics too. -/
theorem metrics_transparent_measured : ∃ inputs t u,
    inputs.Sublist (connecting ++ measuring (cancelled 10 0) 7) ∧
    Machine.exec (step measuredConfig Reference.alloy) measuredStart
      (connecting ++ measuring (cancelled 10 0) 7) = some t ∧
    Machine.exec (step liveConfig Reference.alloy) liveStart inputs = some u ∧
    t.written.length = 1 ∧ u.trace = t.trace ∧ u.sink = t.sink := by
  have returns : (Machine.exec (step measuredConfig Reference.alloy) measuredStart
      (connecting ++ measuring (cancelled 10 0) 7)).isSome := by
    rw [measured_connecting]
    rfl
  obtain ⟨t, run⟩ := Option.isSome_iff_exists.mp returns
  obtain ⟨bare, launches, follows, -⟩ := @metrics_transparent _ _ _ measuredConfig
    Reference.alloy rfl _ _ (.error "no metrics") _ measuredStart_launched
  obtain rfl : liveStart = bare := Except.ok.inj (liveStart_launched.symm.trans launches)
  obtain ⟨inputs, u, some_of, run', -, sink, trace⟩ := follows _ t run
  have written : t.written.length = 1 := by
    rw [measured_connecting] at run
    exact seen (fun t => t.written.length) run rfl
  exact ⟨inputs, t, u, some_of, run, run', written, trace, sink⟩

end Example

end PolymarketIndexer.Frontfill
