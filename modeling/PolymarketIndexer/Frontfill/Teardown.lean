import PolymarketIndexer.Frontfill.Runtime
import PolymarketIndexer.Library.Completion

/-! # The end of the metrics tasks

A run that shuts its runtime down returns only after both tasks have ended, and nothing is
left that could step. However far the tasks got, the updater can always be brought to its end
and the server told to stop; whether the run returns is then up to the server alone.
-/

namespace PolymarketIndexer

/-- What the channels and the tasks say about the handles. -/
def MetricsRuntime.Orderly {S E : Type} (http : HttpServer S E) (runtime : MetricsRuntime S) :
    Prop :=
  match runtime.handles with
  | .held =>
      runtime.rateShutdown = .waiting ∧ runtime.serverShutdown = .waiting ∧
        runtime.updater ≠ .stopped
  | .joiningUpdater => runtime.rateShutdown = .sent ∧ runtime.serverShutdown = .waiting
  | .joiningServer =>
      runtime.rateShutdown = .sent ∧ runtime.serverShutdown = .sent ∧ runtime.updater = .stopped
  | .joined =>
      runtime.rateShutdown = .sent ∧ runtime.serverShutdown = .sent ∧
        runtime.updater = .stopped ∧ http.ended runtime.server = true
  | .dropped => runtime.rateShutdown = .dropped ∧ runtime.serverShutdown = .dropped

namespace MetricsRuntime

variable {S E : Type} {http : HttpServer S E} {runtime after : MetricsRuntime S}

theorem Orderly.resolved (orderly : runtime.Orderly http) (released : runtime.handles ≠ .held) :
    runtime.rateShutdown.resolved = true ∧
      (runtime.handles ≠ .joiningUpdater → runtime.serverShutdown.resolved = true) := by
  unfold Orderly at orderly
  cases handles : runtime.handles with
  | held => exact absurd handles released
  | joiningUpdater =>
      rw [handles] at orderly
      exact ⟨by rw [orderly.1]; rfl, fun other => absurd rfl other⟩
  | joiningServer =>
      rw [handles] at orderly
      exact ⟨by rw [orderly.1]; rfl, fun _ => by rw [orderly.2.1]; rfl⟩
  | joined =>
      rw [handles] at orderly
      exact ⟨by rw [orderly.1]; rfl, fun _ => by rw [orderly.2.1]; rfl⟩
  | dropped =>
      rw [handles] at orderly
      exact ⟨by rw [orderly.1]; rfl, fun _ => by rw [orderly.2]; rfl⟩

/-- Everything a step of the updater can be. -/
theorem updaterStep_cases {event : UpdaterEvent} (moved : updaterStep runtime event = some after) :
    ∃ updater, after = { runtime with updater := updater } ∧ runtime.updater ≠ .stopped ∧
      ((∃ now, event = .publish now ∧ runtime.updater = .publishing ∧ updater = .selecting) ∨
        (event = .tick ∧ runtime.updater = .selecting ∧ updater = .locking) ∨
        (event = .lock ∧ runtime.updater = .locking ∧ updater = .publishing) ∨
        (event = .stop ∧ runtime.updater = .selecting ∧ updater = .stopped ∧
          runtime.rateShutdown.resolved = true)) := by
  cases event with
  | tick =>
      simp only [updaterStep] at moved
      split at moved
      · rename_i at_
        exact ⟨.locking, (Option.some.inj moved).symm, by simp [at_], .inr (.inl ⟨rfl, at_, rfl⟩)⟩
      · cases moved
  | lock =>
      simp only [updaterStep] at moved
      split at moved
      · rename_i at_
        exact ⟨.publishing, (Option.some.inj moved).symm, by simp [at_],
          .inr (.inr (.inl ⟨rfl, at_, rfl⟩))⟩
      · cases moved
  | publish now =>
      simp only [updaterStep] at moved
      split at moved
      · rename_i at_
        exact ⟨.selecting, (Option.some.inj moved).symm, by simp [at_], .inl ⟨now, rfl, at_, rfl⟩⟩
      · cases moved
  | stop =>
      simp only [updaterStep] at moved
      split at moved
      · rename_i at_
        split at moved
        · rename_i resolved
          exact ⟨.stopped, (Option.some.inj moved).symm, by simp [at_],
            .inr (.inr (.inr ⟨rfl, at_, rfl, resolved⟩))⟩
        · cases moved
      · cases moved

/-- A step of the server moves nothing else, and it had not ended. -/
theorem serverStep_cases {exporter : Exporter} {metrics : FrontfillMetrics} {event : E}
    (moved : serverStep http exporter metrics runtime event = some after) :
    http.ended runtime.server = false ∧ ∃ server, after = { runtime with server := server } := by
  obtain ⟨server, stepped, rfl⟩ := Option.map_eq_some_iff.mp moved
  refine ⟨?_, server, rfl⟩
  rw [← Bool.not_eq_true]
  intro ended
  cases (http.silent _ _ _ event ended).symm.trans stepped

/-- Everything a step of `shutdown` can be. -/
theorem joinStep_cases {event : JoinEvent} (moved : joinStep http runtime event = some after) :
    (event = .updater ∧ runtime.handles = .joiningUpdater ∧ runtime.updater = .stopped ∧
        after = { runtime with handles := .joiningServer, serverShutdown := .sent }) ∨
      (event = .server ∧ runtime.handles = .joiningServer ∧ http.ended runtime.server = true ∧
        after = { runtime with handles := .joined }) := by
  cases event with
  | updater =>
      simp only [joinStep] at moved
      split at moved
      · rename_i joining stopped
        exact .inl ⟨rfl, joining, stopped, (Option.some.inj moved).symm⟩
      · cases moved
  | server =>
      simp only [joinStep] at moved
      split at moved
      · rename_i joining
        split at moved
        · rename_i ended
          exact .inr ⟨rfl, joining, ended, (Option.some.inj moved).symm⟩
        · cases moved
      · cases moved

section Invariants

theorem updaterStep_orderly {event : UpdaterEvent} (orderly : runtime.Orderly http)
    (moved : updaterStep runtime event = some after) : after.Orderly http := by
  obtain ⟨updater, rfl, running, kind⟩ := updaterStep_cases moved
  unfold Orderly at orderly ⊢
  cases handles : runtime.handles with
  | held =>
      rw [handles] at orderly
      obtain ⟨rate, server, -⟩ := orderly
      refine ⟨rate, server, ?_⟩
      rcases kind with ⟨-, -, -, rfl⟩ | ⟨-, -, rfl⟩ | ⟨-, -, rfl⟩ | ⟨-, -, -, resolved⟩
      · simp
      · simp
      · simp
      · rw [rate] at resolved
        cases resolved
  | joiningServer =>
      rw [handles] at orderly
      exact absurd orderly.2.2 running
  | joined =>
      rw [handles] at orderly
      exact absurd orderly.2.2.1 running
  | _ =>
      rw [handles] at orderly
      simpa only [handles] using orderly

theorem serverStep_orderly {exporter : Exporter} {metrics : FrontfillMetrics} {event : E}
    (orderly : runtime.Orderly http)
    (moved : serverStep http exporter metrics runtime event = some after) :
    after.Orderly http := by
  obtain ⟨running, server, rfl⟩ := serverStep_cases moved
  unfold Orderly at orderly ⊢
  cases handles : runtime.handles with
  | joined =>
      rw [handles] at orderly
      cases running.symm.trans orderly.2.2.2
  | _ =>
      rw [handles] at orderly
      simpa only [handles] using orderly

theorem joinStep_orderly {event : JoinEvent} (orderly : runtime.Orderly http)
    (moved : joinStep http runtime event = some after) : after.Orderly http := by
  unfold Orderly at orderly
  rcases joinStep_cases moved with ⟨-, joining, stopped, rfl⟩ | ⟨-, joining, ended, rfl⟩
  · rw [joining] at orderly
    exact ⟨orderly.1, rfl, stopped⟩
  · rw [joining] at orderly
    exact ⟨orderly.1, orderly.2.1, orderly.2.2, ended⟩

end Invariants

end MetricsRuntime

namespace Frontfill

variable {σ ω S E : Type}

section Exits

variable {config : FrontfillConfig} {alloy : Alloy} {s t : State σ ω} {input : Input ω}

theorem running_of_stage {phase : Phase} (running : phase.stage ≠ .gone) :
    phase.result? = none := by
  cases phase with
  | exiting result => exact absurd rfl running
  | returned result => exact absurd rfl running
  | _ => rfl

/-- A step stays in the loops, exits through the shutdown of the runtime, or passes on an error
that it has just met. -/
theorem meters_leaves {a b : Ledger} (running : s.phase.result? = none)
    (meters : Meters alloy s a input t b) :
    t.phase.result? = none ∨ (∃ result, t.phase = .exiting result) ∨
      ∃ error effect, t.phase = .returned (.error error) ∧ t.trace.getLast? = some effect ∧
        (effect = .refused error ∨ effect = .sinkFailed error) := by
  cases meters with
  | steady stage result => exact .inl (result.trans running)
  | subscribed outside loop => exact .inl (running_of_stage (by rw [loop]; nofun))
  | ended loop outside => exact .inl (running_of_stage (by rw [outside]; nofun))
  | took loop checked observing => exact .inl (by rw [observing]; rfl)
  | missing loop checked exiting => exact .inr (.inl ⟨_, exiting⟩)
  | counted observing loop => exact .inl (running_of_stage (by rw [loop]; nofun))
  | countedType loop typed => exact .inl (running_of_stage (by rw [typed]; nofun))
  | rotated loop still => exact .inl (running_of_stage (by rw [still]; nofun))
  | undecodable loop exiting => exact .inr (.inl ⟨_, exiting⟩)
  | wrote typed loop => exact .inl (running_of_stage (by rw [loop]; nofun))
  | writeFailed typed exiting => exact .inr (.inl ⟨_, exiting⟩)
  | closed loop exiting => exact .inr (.inl ⟨_, exiting⟩)
  | @left _ _ effect error within returned trace failed =>
      exact .inr (.inr ⟨error, effect, returned, by rw [trace, List.getLast?_concat], failed⟩)

/-- A run that waits for its runtime does nothing else. -/
theorem run_exiting [EventSink σ ω] {result : Except String Unit}
    (exiting : s.phase = .exiting result) (moved : step config alloy s input = some t) :
    t.metrics = s.metrics ∧ t.trace = s.trace ∧ t.sink = s.sink ∧
      ((input = .metricsStopped ∧ t.phase = .returned result) ∨
        (input = .signal ∧ t.phase = .exiting result)) := by
  cases input with
  | metricsStopped =>
      simp only [step, processStep, exiting] at moved
      obtain rfl := Option.some.inj moved
      exact ⟨rfl, rfl, rfl, .inl ⟨rfl, rfl⟩⟩
  | signal =>
      simp only [step, signalStep, exiting] at moved
      split at moved
      · obtain rfl := Option.some.inj moved
        exact ⟨rfl, rfl, rfl, .inr ⟨rfl, rfl⟩⟩
      · cases moved
  | _ => simp [step, reconnectStep, selectStep, processStep, sinkStep, exiting] at moved

end Exits

/-- What the handles say about the run. -/
structure Accompanied (http : HttpServer S E) (h : Hosted σ ω S) : Prop where
  orderly : h.runtime.Orderly http
  metered : h.run.metrics.isSome
  held : h.runtime.handles = .held ↔ h.run.phase.result? = none
  exiting : ∀ result, h.run.phase = .exiting result → h.runtime.handles ≠ .dropped
  returned : ∀ result, h.run.phase = .returned result → h.runtime.handles = .joined ∨
    (h.runtime.handles = .dropped ∧ ∃ error effect, result = .error error ∧
      h.run.trace.getLast? = some effect ∧
      (effect = .refused error ∨ effect = .sinkFailed error))

section Steps

variable {config : FrontfillConfig} {alloy : Alloy} {exporter : Exporter}
  {http : HttpServer S E} {h h' : Hosted σ ω S}

/-- A step of a task changes neither the handles nor what the run has done. -/
theorem Accompanied.task {runtime : MetricsRuntime S} {run : State σ ω}
    (before : Accompanied http h) (orderly : runtime.Orderly http)
    (handles : runtime.handles = h.runtime.handles) (metered : run.metrics.isSome)
    (phase : run.phase = h.run.phase) (trace : run.trace = h.run.trace) :
    Accompanied http { run := run, runtime := runtime } where
  orderly := orderly
  metered := metered
  held := by rw [handles, phase]; exact before.held
  exiting := by rw [handles, phase]; exact before.exiting
  returned := by rw [handles, phase, trace]; exact before.returned

variable [EventSink σ ω]

/-- Everything a step of a hosted run can be. -/
theorem hosted_cases {input : HostedInput ω E}
    (moved : hostedStep config alloy exporter http h input = some h') :
    (∃ own run, input = .run own ∧ mayRun h.runtime own = true ∧
        step config alloy h.run own = some run ∧
        h' = { run := run, runtime := handOver h.runtime run.phase }) ∨
      (∃ event runtime, input = .updater event ∧ updaterStep h.runtime event = some runtime ∧
        h' = { run := h.run.measure (publishRates event), runtime := runtime }) ∨
      (∃ event metrics runtime, input = .server event ∧ h.run.metrics = some metrics ∧
        serverStep http exporter metrics h.runtime event = some runtime ∧
        h' = { h with runtime := runtime }) ∨
      ∃ event runtime, input = .join event ∧ joinStep http h.runtime event = some runtime ∧
        h' = { h with runtime := runtime } := by
  cases input with
  | run own =>
      simp only [hostedStep] at moved
      split at moved
      · rename_i allowed
        obtain ⟨run, stepped, rfl⟩ := Option.map_eq_some_iff.mp moved
        exact .inl ⟨own, run, rfl, allowed, stepped, rfl⟩
      · cases moved
  | updater event =>
      obtain ⟨runtime, stepped, rfl⟩ := Option.map_eq_some_iff.mp moved
      exact .inr (.inl ⟨event, runtime, rfl, stepped, rfl⟩)
  | server event =>
      simp only [hostedStep] at moved
      split at moved
      · cases moved
      · rename_i metrics known
        obtain ⟨runtime, stepped, rfl⟩ := Option.map_eq_some_iff.mp moved
        exact .inr (.inr (.inl ⟨event, metrics, runtime, rfl, known, stepped, rfl⟩))
  | join event =>
      obtain ⟨runtime, stepped, rfl⟩ := Option.map_eq_some_iff.mp moved
      exact .inr (.inr (.inr ⟨event, runtime, rfl, stepped, rfl⟩))

theorem handOver_released {runtime : MetricsRuntime S} (released : runtime.handles ≠ .held)
    (phase : Phase) : handOver runtime phase = runtime := by
  unfold handOver
  split
  · rename_i held
    exact absurd held released
  · rename_i held
    exact absurd held released
  · rfl

/-- A step of the run itself. -/
theorem Accompanied.own {own : Input ω} {run : State σ ω} (before : Accompanied http h)
    (allowed : mayRun h.runtime own = true) (moved : step config alloy h.run own = some run) :
    Accompanied http { run := run, runtime := handOver h.runtime run.phase } := by
  obtain ⟨m, metrics⟩ := Option.isSome_iff_exists.mp before.metered
  obtain ⟨m', metrics', meters⟩ := step_meters metrics moved
  have metered : run.metrics.isSome := by rw [metrics']; rfl
  cases phase : h.run.phase with
  | exiting result =>
      have released : h.runtime.handles ≠ .held := fun held => by
        cases (before.held.mp held).symm.trans (congrArg Phase.result? phase)
      have alive := before.exiting result phase
      rw [handOver_released released]
      obtain ⟨-, -, -, outcome⟩ := run_exiting phase moved
      rcases outcome with ⟨rfl, returned⟩ | ⟨rfl, still⟩
      · have joined : h.runtime.handles = .joined := of_decide_eq_true allowed
        refine ⟨before.orderly, metered, ?_, ?_, fun _ _ => .inl joined⟩
        · simp [joined, returned, Phase.result?]
        · intro result' exiting
          cases returned.symm.trans exiting
      · refine ⟨before.orderly, metered, ?_, fun _ _ => alive, ?_⟩
        · simp [released, still, Phase.result?]
        · intro result' returned
          cases still.symm.trans returned
  | returned result => exact absurd phase (step_alive moved result)
  | _ =>
      have running : h.run.phase.result? = none := by rw [phase]; rfl
      have held := before.held.mpr running
      have channels := before.orderly
      unfold MetricsRuntime.Orderly at channels
      rw [held] at channels
      rcases meters_leaves running meters with goesOn | ⟨result, exiting⟩ |
        ⟨error, effect, returned, last, failed⟩
      · have same : handOver h.runtime run.phase = h.runtime := by
          unfold handOver
          split
          · rename_i exiting
            rw [exiting] at goesOn
            cases goesOn
          · rename_i returned
            rw [returned] at goesOn
            cases goesOn
          · rfl
        rw [same]
        refine ⟨before.orderly, metered, ?_, ?_, ?_⟩
        · simp [held, goesOn]
        · intro result exiting
          rw [exiting] at goesOn
          cases goesOn
        · intro result returned
          rw [returned] at goesOn
          cases goesOn
      · have taken : handOver h.runtime run.phase =
            { h.runtime with handles := .joiningUpdater, rateShutdown := .sent } := by
          simp [handOver, held, exiting]
        rw [taken]
        refine ⟨⟨rfl, channels.2.1⟩, metered, ?_, fun _ _ => by simp, ?_⟩
        · simp [exiting, Phase.result?]
        · intro result' returned
          cases exiting.symm.trans returned
      · have dropped : handOver h.runtime run.phase = { h.runtime with
            handles := .dropped, rateShutdown := .dropped, serverShutdown := .dropped } := by
          simp [handOver, held, returned]
        rw [dropped]
        refine ⟨⟨rfl, rfl⟩, metered, ?_, ?_, ?_⟩
        · simp [returned, Phase.result?]
        · intro result exiting
          cases returned.symm.trans exiting
        · intro result same
          obtain rfl := Phase.returned.inj (returned.symm.trans same)
          exact .inr ⟨rfl, error, effect, rfl, last, failed⟩

theorem hosted_step_accompanied {input : HostedInput ω E} (before : Accompanied http h)
    (moved : hostedStep config alloy exporter http h input = some h') : Accompanied http h' := by
  rcases hosted_cases moved with ⟨own, run, rfl, allowed, stepped, rfl⟩ |
    ⟨event, runtime, rfl, stepped, rfl⟩ | ⟨event, metrics, runtime, rfl, -, stepped, rfl⟩ |
    ⟨event, runtime, rfl, stepped, rfl⟩
  · exact before.own allowed stepped
  · have orderly := MetricsRuntime.updaterStep_orderly before.orderly stepped
    obtain ⟨updater, rfl, -⟩ := MetricsRuntime.updaterStep_cases stepped
    exact before.task orderly rfl
      (by rw [State.measure, Option.isSome_map]; exact before.metered) rfl rfl
  · have orderly := MetricsRuntime.serverStep_orderly before.orderly stepped
    obtain ⟨-, server, rfl⟩ := MetricsRuntime.serverStep_cases stepped
    exact before.task orderly rfl before.metered rfl rfl
  · have orderly := MetricsRuntime.joinStep_orderly before.orderly stepped
    rcases MetricsRuntime.joinStep_cases stepped with ⟨-, joining, -, rfl⟩ | ⟨-, joining, -, rfl⟩
    · refine ⟨orderly, before.metered, ?_, fun _ _ => by simp, ?_⟩
      · simp [← before.held, joining]
      · intro result returned
        rcases before.returned result returned with joined | ⟨dropped, -⟩
        · cases joined.symm.trans joining
        · cases dropped.symm.trans joining
    · refine ⟨orderly, before.metered, ?_, fun _ _ => by simp, fun _ _ => .inl rfl⟩
      simp [← before.held, joining]

theorem hosted_accompanied {storage : Except String σ} {s : State σ ω}
    {inputs : List (HostedInput ω E)} (enabled : config.metricsEnabled = true)
    (start : launch config storage (.ok FrontfillMetrics.register) = .ok s)
    (run : Machine.exec (hostedStep config alloy exporter http)
      { run := s, runtime := .started http } inputs = some h) : Accompanied http h := by
  obtain ⟨-, -, phase, -⟩ := launch_start start
  have first : Accompanied http
      ({ run := s, runtime := .started http } : Hosted σ ω S) := by
    refine ⟨⟨rfl, rfl, (by simp [MetricsRuntime.started])⟩, ?_, ?_, ?_, ?_⟩
    · rw [launch_metrics enabled start]
      rfl
    · simp [MetricsRuntime.started, phase, Phase.result?]
    · intro result exiting
      cases phase.symm.trans exiting
    · intro result returned
      cases phase.symm.trans returned
  have keeps : ∀ (a : Hosted σ ω S) (i : HostedInput ω E) (b : Hosted σ ω S), True →
      Accompanied http a → hostedStep config alloy exporter http a i = some b →
      Accompanied http b :=
    fun _ _ _ _ before moved => hosted_step_accompanied before moved
  exact Machine.exec_invariant _ keeps (fun _ _ => trivial) run first

/-- Nothing can step once the run has returned and both tasks have ended. -/
theorem nothing_left {result : Except String Unit} (returned : h.run.phase = .returned result)
    (updater : h.runtime.updater = .stopped) (server : http.ended h.runtime.server = true)
    (handles : h.runtime.handles = .joined ∨ h.runtime.handles = .dropped)
    (input : HostedInput ω E) : hostedStep config alloy exporter http h input = none := by
  cases stepped : hostedStep config alloy exporter http h input with
  | none => rfl
  | some h' =>
      rcases hosted_cases stepped with ⟨own, run, -, -, moved, -⟩ | ⟨event, runtime, -, moved, -⟩ |
        ⟨event, metrics, runtime, -, -, moved, -⟩ | ⟨event, runtime, -, moved, -⟩
      · exact absurd returned (step_alive moved result)
      · obtain ⟨-, -, running, -⟩ := MetricsRuntime.updaterStep_cases moved
        exact absurd updater running
      · cases (MetricsRuntime.serverStep_cases moved).1.symm.trans server
      · rcases MetricsRuntime.joinStep_cases moved with ⟨-, joining, -⟩ | ⟨-, joining, -⟩
        · rcases handles with joined | dropped
          · cases joined.symm.trans joining
          · cases dropped.symm.trans joining
        · rcases handles with joined | dropped
          · cases joined.symm.trans joining
          · cases dropped.symm.trans joining

/-- While the run is in its loops the updater lives and neither task has been told to stop. A run
that has returned has waited for both, and nothing is left that could step, unless it passed on an
error at once: then both tasks are told to stop and left behind. -/
theorem tasks_outlive_run {storage : Except String σ} {s : State σ ω}
    {inputs : List (HostedInput ω E)} (enabled : config.metricsEnabled = true)
    (start : launch config storage (.ok FrontfillMetrics.register) = .ok s)
    (run : Machine.exec (hostedStep config alloy exporter http)
      { run := s, runtime := .started http } inputs = some h) :
    (h.run.phase.result? = none → h.runtime.updater ≠ .stopped ∧
      h.runtime.rateShutdown.resolved = false ∧ h.runtime.serverShutdown.resolved = false) ∧
    ∀ result, h.run.phase = .returned result →
      (h.runtime.updater = .stopped ∧ http.ended h.runtime.server = true ∧
        ∀ input, hostedStep config alloy exporter http h input = none) ∨
      (h.runtime.rateShutdown.resolved = true ∧ h.runtime.serverShutdown.resolved = true ∧
        ∃ error effect, result = .error error ∧ h.run.trace.getLast? = some effect ∧
          (effect = .refused error ∨ effect = .sinkFailed error)) := by
  have accompanied := hosted_accompanied enabled start run
  have ended := accompanied.orderly
  unfold MetricsRuntime.Orderly at ended
  refine ⟨fun running => ?_, fun result returned => ?_⟩
  · rw [accompanied.held.mpr running] at ended
    obtain ⟨rate, server, updater⟩ := ended
    exact ⟨updater, by rw [rate]; rfl, by rw [server]; rfl⟩
  · rcases accompanied.returned result returned with joined | ⟨dropped, error, effect, failing⟩
    · left
      rw [joined] at ended
      obtain ⟨-, -, updater, server⟩ := ended
      exact ⟨updater, server, nothing_left returned updater server (.inl joined)⟩
    · right
      obtain ⟨rate, server⟩ := accompanied.orderly.resolved (by simp [dropped])
      exact ⟨rate, server (by simp [dropped]), error, effect, failing⟩

end Steps

section Completion

/-- The steps that bring the updater to its end: its own, but for the ticks of its timer, and the
wait for it. -/
def HostedInput.windsUp : HostedInput ω E → Bool
  | .updater .tick => false
  | .updater _ => true
  | .join .updater => true
  | _ => false

def updaterWork : Updater → Nat
  | .selecting => 1
  | .locking => 3
  | .publishing => 2
  | .stopped => 0

def joinWork : Handles → Nat
  | .joiningUpdater => 1
  | _ => 0

/-- How many of these steps are left. -/
def windingUp (h : Hosted σ ω S) : Nat := updaterWork h.runtime.updater + joinWork h.runtime.handles

theorem windingUp_le (h : Hosted σ ω S) : windingUp h ≤ 4 := by
  unfold windingUp
  have updater : updaterWork h.runtime.updater ≤ 3 := by
    cases h.runtime.updater <;> simp [updaterWork]
  have join : joinWork h.runtime.handles ≤ 1 := by cases h.runtime.handles <;> simp [joinWork]
  omega

/-- The run has left its loops. -/
def Leaving (http : HttpServer S E) (h : Hosted σ ω S) : Prop :=
  Accompanied http h ∧ h.run.phase.result? ≠ none

/-- The updater has ended, and the run does not wait for it any more. -/
def WoundUp (h : Hosted σ ω S) : Prop :=
  h.runtime.updater = .stopped ∧ h.runtime.handles ≠ .joiningUpdater

def TornDown (http : HttpServer S E) (h : Hosted σ ω S) : Prop :=
  (∃ result, h.run.phase = .returned result) ∧ h.runtime.updater = .stopped ∧
    http.ended h.runtime.server = true

variable [EventSink σ ω] {config : FrontfillConfig} {alloy : Alloy} {exporter : Exporter}
  {http : HttpServer S E} {h : Hosted σ ω S}

theorem leaving_step {a b : Hosted σ ω S} {input : HostedInput ω E} (leaving : Leaving http a)
    (moved : hostedStep config alloy exporter http a input = some b) : Leaving http b := by
  obtain ⟨accompanied, left⟩ := leaving
  refine ⟨hosted_step_accompanied accompanied moved, ?_⟩
  rcases hosted_cases moved with ⟨own, run, -, -, stepped, rfl⟩ | ⟨event, runtime, -, -, rfl⟩ |
    ⟨event, metrics, runtime, -, -, -, rfl⟩ | ⟨event, runtime, -, -, rfl⟩
  · cases phase : a.run.phase with
    | exiting result =>
        rcases (run_exiting phase stepped).2.2.2 with ⟨-, returned⟩ | ⟨-, still⟩
        · simp [returned, Phase.result?]
        · simp [still, Phase.result?]
    | returned result => exact absurd phase (step_alive stepped result)
    | _ =>
        rw [phase] at left
        exact absurd rfl left
  · exact left
  · exact left
  · exact left

theorem windingUp_lowers : Machine.Lowers (hostedStep config alloy exporter http)
    (Leaving http : Hosted σ ω S → Prop) HostedInput.windsUp windingUp where
  keeps _ _ _ leaving moved := leaving_step leaving moved
  lowers := by
    rintro a input b - work moved
    rcases hosted_cases moved with ⟨own, run, rfl, -, -, -⟩ | ⟨event, runtime, rfl, stepped, rfl⟩ |
      ⟨event, metrics, runtime, rfl, -, -, -⟩ | ⟨event, runtime, rfl, stepped, rfl⟩
    · cases work
    · obtain ⟨updater, rfl, -, kind⟩ := MetricsRuntime.updaterStep_cases stepped
      rcases kind with ⟨now, rfl, was, rfl⟩ | ⟨rfl, -, -⟩ | ⟨rfl, was, rfl⟩ | ⟨rfl, was, rfl, -⟩
      · simp only [windingUp, was, updaterWork]
        omega
      · cases work
      · simp only [windingUp, was, updaterWork]
        omega
      · simp only [windingUp, was, updaterWork]
        omega
    · cases work
    · rcases MetricsRuntime.joinStep_cases stepped with ⟨-, joining, -, rfl⟩ | ⟨rfl, -, -, -⟩
      · simp only [windingUp, joining, joinWork]
        omega
      · cases work

/-- Until the updater has ended one of these steps is possible. -/
theorem windingUp_possible (leaving : Leaving http h) (going : ¬WoundUp h) :
    ∃ input h', input.windsUp = true ∧
      hostedStep config alloy exporter http h input = some h' := by
  obtain ⟨accompanied, left⟩ := leaving
  have released : h.runtime.handles ≠ .held := fun held => left (accompanied.held.mp held)
  obtain ⟨rate, -⟩ := accompanied.orderly.resolved released
  cases updater : h.runtime.updater with
  | selecting =>
      exact ⟨.updater .stop, _, rfl, by simp [hostedStep, updaterStep, updater, rate]; rfl⟩
  | locking => exact ⟨.updater .lock, _, rfl, by simp [hostedStep, updaterStep, updater]; rfl⟩
  | publishing =>
      exact ⟨.updater (.publish 0), _, rfl, by simp [hostedStep, updaterStep, updater]; rfl⟩
  | stopped =>
      by_cases joining : h.runtime.handles = .joiningUpdater
      · exact ⟨.join .updater, _, rfl, by simp [hostedStep, joinStep, joining, updater]; rfl⟩
      · exact absurd ⟨updater, joining⟩ going

/-- Steps that leave the server alone. -/
theorem windsUp_server {a b : Hosted σ ω S} {input : HostedInput ω E} (winds : input.windsUp = true)
    (moved : hostedStep config alloy exporter http a input = some b) :
    b.runtime.server = a.runtime.server := by
  rcases hosted_cases moved with ⟨own, run, rfl, -, -, -⟩ | ⟨event, runtime, rfl, stepped, rfl⟩ |
    ⟨event, metrics, runtime, rfl, -, -, -⟩ | ⟨event, runtime, rfl, stepped, rfl⟩
  · cases winds
  · obtain ⟨updater, rfl, -⟩ := MetricsRuntime.updaterStep_cases stepped
    rfl
  · cases winds
  · rcases MetricsRuntime.joinStep_cases stepped with ⟨-, -, -, rfl⟩ | ⟨rfl, -⟩
    · rfl
    · cases winds

/-- A server that was told to stop ends beside the run as it would end alone. -/
theorem exec_drain {metrics : FrontfillMetrics} {drain : List E} {server : S}
    (known : h.run.metrics = some metrics) (told : h.runtime.serverShutdown.resolved = true)
    (drained : Machine.exec (http.step (respond exporter metrics) true) h.runtime.server drain =
      some server) :
    Machine.exec (hostedStep config alloy exporter http) h (drain.map .server) =
      some { h with runtime.server := server } := by
  induction drain generalizing h with
  | nil =>
      obtain rfl := Option.some.inj drained
      rfl
  | cons event drain ih =>
      obtain ⟨next, first, rest⟩ := (Machine.exec_cons _).mp drained
      refine (Machine.exec_cons _).mpr ⟨{ h with runtime.server := next }, ?_, ih known told rest⟩
      simp only [hostedStep, known, serverStep, told, first, Option.map_some]

/-- Once the server has ended, at most two steps are left. -/
theorem tornDown_after (leaving : Leaving http h) (wound : WoundUp h)
    (ended : http.ended h.runtime.server = true) :
    ∃ rest last, Machine.exec (hostedStep config alloy exporter http) h rest = some last ∧
      TornDown http last ∧ rest.length ≤ 2 := by
  obtain ⟨accompanied, left⟩ := leaving
  have released : h.runtime.handles ≠ .held := fun held => left (accompanied.held.mp held)
  have returns : ∀ g : Hosted σ ω S, g.runtime.handles = .joined →
      g.runtime.updater = .stopped → http.ended g.runtime.server = true →
      ∀ result, g.run.phase = .exiting result →
      ∃ last, hostedStep config alloy exporter http g (.run .metricsStopped) = some last ∧
        TornDown http last := by
    intro g joined updater ended result exiting
    refine ⟨{ run := { g.run with phase := .returned result }, runtime := g.runtime },
      ?_, ⟨result, rfl⟩, updater, ended⟩
    have free := @handOver_released S g.runtime (by simp [joined]) (.returned result)
    simp [hostedStep, mayRun, joined, step, processStep, exiting, free]
  cases phase : h.run.phase with
  | returned result => exact ⟨[], h, rfl, ⟨⟨result, phase⟩, wound.1, ended⟩, by simp⟩
  | exiting result =>
      cases handles : h.runtime.handles with
      | held => exact absurd handles released
      | joiningUpdater => exact absurd handles wound.2
      | dropped => exact absurd handles (accompanied.exiting result phase)
      | joined =>
          obtain ⟨last, moved, done⟩ := returns h handles wound.1 ended result phase
          exact ⟨[.run .metricsStopped], last, (Machine.exec_cons _).mpr ⟨last, moved, rfl⟩, done,
            by simp⟩
      | joiningServer =>
          let joined : Hosted σ ω S := { h with runtime.handles := .joined }
          have joins : hostedStep config alloy exporter http h (.join .server) = some joined := by
            simp [hostedStep, joinStep, handles, ended, joined]
          obtain ⟨last, moved, done⟩ := returns joined rfl wound.1 ended result phase
          exact ⟨[.join .server, .run .metricsStopped], last, (Machine.exec_cons _).mpr
            ⟨joined, joins, (Machine.exec_cons _).mpr ⟨last, moved, rfl⟩⟩, done, by simp⟩
  | _ =>
      rw [phase] at left
      exact absurd rfl left

/-- However far the tasks have got when a run leaves its loops, at most four steps without a new
timer tick end the updater and tell the server to stop. What remains is the server's: by any steps
with which it ends, at most two more away from them, both tasks have ended and the run has
returned. -/
theorem teardown_completes {storage : Except String σ} {s : State σ ω}
    {inputs : List (HostedInput ω E)} (enabled : config.metricsEnabled = true)
    (start : launch config storage (.ok FrontfillMetrics.register) = .ok s)
    (run : Machine.exec (hostedStep config alloy exporter http)
      { run := s, runtime := .started http } inputs = some h)
    (left : h.run.phase.result? ≠ none) :
    ∃ more h', Machine.exec (hostedStep config alloy exporter http) h more = some h' ∧
      (∀ input ∈ more, input.windsUp = true) ∧ more.length ≤ 4 ∧
      h'.runtime.updater = .stopped ∧ h'.runtime.serverShutdown.resolved = true ∧
      h'.runtime.server = h.runtime.server ∧
      ∃ metrics, h'.run.metrics = some metrics ∧ ∀ drain server,
        Machine.exec (http.step (respond exporter metrics) true) h'.runtime.server drain =
          some server →
        http.ended server = true →
        ∃ rest last, Machine.exec (hostedStep config alloy exporter http) h'
            (drain.map .server ++ rest) = some last ∧
          TornDown http last ∧ rest.length ≤ 2 := by
  have leaving : Leaving http h := ⟨hosted_accompanied enabled start run, left⟩
  obtain ⟨more, h', reached, wound, only, short⟩ :=
    (@windingUp_lowers σ ω S E _ config alloy exporter http).reaches
      (fun _ leaving going => windingUp_possible leaving going) leaving
  have leaving' : Leaving http h' := Machine.exec_invariant (hostedStep config alloy exporter http)
    (fun _ _ _ (_ : True) => leaving_step) (fun _ _ => trivial) reached leaving
  have server : h'.runtime.server = h.runtime.server :=
    Machine.exec_invariant (hostedStep config alloy exporter http)
      (fun _ _ _ winds same moved => (windsUp_server winds moved).trans same) only reached rfl
  have released : h'.runtime.handles ≠ .held :=
    fun held => leaving'.2 (leaving'.1.held.mp held)
  have told := (leaving'.1.orderly.resolved released).2 wound.2
  obtain ⟨metrics, known⟩ := Option.isSome_iff_exists.mp leaving'.1.metered
  refine ⟨more, h', reached, only, Nat.le_trans short (windingUp_le h), wound.1, told, server,
    metrics, known, ?_⟩
  intro drain server drained ended
  have stepped := @exec_drain σ ω S E _ config alloy exporter http h' _ _ _ known told drained
  have leaving'' : Leaving http ({ h' with runtime.server := server } : Hosted σ ω S) :=
    Machine.exec_invariant (hostedStep config alloy exporter http)
      (fun _ _ _ (_ : True) => leaving_step) (fun _ _ => trivial) stepped leaving'
  obtain ⟨rest, last, moved, done, short⟩ :=
    @tornDown_after σ ω S E _ config alloy exporter http _ leaving'' wound ended
  exact ⟨rest, last, (Machine.exec_append _).mpr ⟨_, stepped, moved⟩, done, short⟩

end Completion

section Example

def plainText : Exporter where
  encode _ := .ok []
  formatType := "text/plain; version=0.0.4"
  headerValue := some

/-- A server that answers one request after another, and ends when it is told to and none is
open. -/
structure OneByOne where
  pending : List String
  answered : List (String × Response)
  ended : Bool

inductive OneByOneEvent where
  | accept (path : String)
  | answer (now : UInt64)
  | finish

def OneByOne.step (app : UInt64 → String → Response) (told : Bool) (server : OneByOne)
    (event : OneByOneEvent) : Option OneByOne :=
  if server.ended then none
  else match event, server.pending with
    | .accept path, pending =>
        if told then none else some { server with pending := pending ++ [path] }
    | .answer now, path :: pending =>
        some { server with
          pending := pending
          answered := server.answered ++ [(path, app now path)] }
    | .finish, [] => if told then some { server with ended := true } else none
    | _, _ => none

def oneByOne : HttpServer OneByOne OneByOneEvent where
  serve := { pending := [], answered := [], ended := false }
  step := OneByOne.step
  ended := OneByOne.ended
  silent _ _ _ _ ended := if_pos ended

def hosted (inputs : List (HostedInput ParquetIo OneByOneEvent)) :
    Option (Hosted ParquetSink ParquetIo OneByOne) :=
  Machine.exec (hostedStep measuredConfig Reference.alloy plainText oneByOne)
    { run := measuredStart, runtime := .started oneByOne } inputs

theorem hosted_connecting (inputs : List (HostedInput ParquetIo OneByOneEvent)) :
    hosted (connecting.map .run ++ inputs) =
      Machine.exec (hostedStep measuredConfig Reference.alloy plainText oneByOne)
        { run := measuredListening, runtime := .started oneByOne } inputs := by
  obtain ⟨filter, filters⟩ := buildFilter_ok Reference.addresses_parse measuredConfig.startBlock
  have connects : buildWsConnect measuredConfig = .ok _ := rfl
  simp only [hosted, connecting, List.map_cons, List.map_nil, List.cons_append, List.nil_append,
    Machine.exec, hostedStep, mayRun, step, reconnectStep, measuredStart, liveStart, connects,
    filters, Option.bind_some, Option.map_some, if_true]
  rfl

/-- A request is open and the updater waits for the lock when the run is shut down. -/
def interrupted : List (HostedInput ParquetIo OneByOneEvent) :=
  connecting.map .run ++ [.server (.accept "/health"), .updater .tick, .run (.pollCtrlC (.ok ())),
    .run .signal, .run .shutdown, .run (.sink sinkOk)]

def tearingDown : List (HostedInput ParquetIo OneByOneEvent) :=
  [.updater .lock, .updater (.publish 5), .updater .stop, .join .updater, .server (.answer 9),
    .server .finish, .join .server, .run .metricsStopped]

theorem teardown_completes_interrupted : ∃ h more h' rest last, hosted interrupted = some h ∧
    Machine.exec (hostedStep measuredConfig Reference.alloy plainText oneByOne) h more =
      some h' ∧ more.length ≤ 4 ∧
    Machine.exec (hostedStep measuredConfig Reference.alloy plainText oneByOne) h'
      ([.server (.answer 9), .server .finish] ++ rest) = some last ∧
    TornDown oneByOne last ∧ rest.length ≤ 2 := by
  have reached : (hosted interrupted).isSome := by
    rw [interrupted, hosted_connecting]
    rfl
  obtain ⟨h, run⟩ := Option.isSome_iff_exists.mp reached
  have heard := run
  rw [interrupted, hosted_connecting] at heard
  have left : h.run.phase.result? = some (.ok ()) := seen (fun h => h.run.phase.result?) heard rfl
  have serving : h.runtime.server = { pending := ["/health"], answered := [], ended := false } :=
    seen (fun h => h.runtime.server) heard rfl
  obtain ⟨more, h', moved, -, short, -, -, server, metrics, known, ends⟩ :=
    teardown_completes rfl measuredStart_launched run (by rw [left]; simp)
  have drained : Machine.exec (oneByOne.step (respond plainText metrics) true) h'.runtime.server
      [.answer 9, .finish] =
        some (OneByOne.mk [] [("/health", respond plainText metrics 9 "/health")] true) := by
    rw [server, serving]
    rfl
  obtain ⟨rest, last, ended, done, few⟩ := ends _ _ drained rfl
  exact ⟨h, more, h', rest, last, run, moved, short, ended, done, few⟩

theorem tasks_outlive_run_interrupted : ∃ h, hosted (interrupted ++ tearingDown) = some h ∧
    h.runtime.updater = .stopped ∧ h.runtime.server.ended = true ∧
    h.runtime.server.answered.map Prod.fst = ["/health"] := by
  have reached : (hosted (interrupted ++ tearingDown)).isSome := by
    rw [interrupted, List.append_assoc, hosted_connecting]
    rfl
  obtain ⟨h, run⟩ := Option.isSome_iff_exists.mp reached
  have heard := run
  rw [interrupted, List.append_assoc, hosted_connecting] at heard
  have phase : h.run.phase = .returned (.ok ()) := seen (fun h => h.run.phase) heard rfl
  have answered : h.runtime.server.answered.map Prod.fst = ["/health"] :=
    seen (fun h => h.runtime.server.answered.map Prod.fst) heard rfl
  rcases (tasks_outlive_run rfl measuredStart_launched run).2 _ phase with
    ⟨updater, ended, -⟩ | ⟨-, -, error, effect, impossible, -⟩
  · exact ⟨h, run, updater, ended, answered⟩
  · cases impossible

end Example

end Frontfill

end PolymarketIndexer
