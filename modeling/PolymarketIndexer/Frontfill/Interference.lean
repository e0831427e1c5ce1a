import PolymarketIndexer.Frontfill.Teardown
import PolymarketIndexer.Library.Simulation

/-! # The tasks do not interfere

What the updater writes are the rates, and the run never reads them. So a run beside its tasks
is a plain run: only the rates can differ, and the tasks can only make it wait: for the lock of
the rates, and for their own end when it leaves through `shutdown`.
-/

namespace PolymarketIndexer

def FrontfillMetrics.withoutRates (metrics : FrontfillMetrics) : FrontfillMetrics :=
  { metrics with
    logsPerMinute := 0
    logsPerMinuteByType := ∅
    rateState := { total := [], byType := ∅ } }

namespace Frontfill

variable {σ ω S E : Type}

def State.withMetrics (s : State σ ω) (metrics : Option FrontfillMetrics) : State σ ω :=
  { s with metrics := metrics }

/-- Two states that differ at most in the rates. -/
structure Alike (a b : State σ ω) : Prop where
  rest : b.withMetrics none = a.withMetrics none
  metrics : b.metrics.map FrontfillMetrics.withoutRates =
    a.metrics.map FrontfillMetrics.withoutRates

namespace Alike

variable {a b : State σ ω}

theorem refl (s : State σ ω) : Alike s s := ⟨rfl, rfl⟩

theorem phase (alike : Alike a b) : b.phase = a.phase := (congrArg State.phase alike.rest :)

theorem sink (alike : Alike a b) : b.sink = a.sink := (congrArg State.sink alike.rest :)

theorem trace (alike : Alike a b) : b.trace = a.trace := (congrArg State.trace alike.rest :)

theorem window (alike : Alike a b) : b.nextRotationBlock = a.nextRotationBlock :=
  (congrArg State.nextRotationBlock alike.rest :)

theorem handler (alike : Alike a b) : b.handlerInstalled = a.handlerInstalled :=
  (congrArg State.handlerInstalled alike.rest :)

theorem enabled (alike : Alike a b) : b.metrics.isSome = a.metrics.isSome := by
  have same := congrArg Option.isSome alike.metrics
  simpa only [Option.isSome_map] using same

/-- A change that does not touch the metrics. -/
theorem via (alike : Alike a b) (change : State σ ω → State σ ω)
    (apart : ∀ s metrics, change (s.withMetrics metrics) = (change s).withMetrics metrics) :
    Alike (change a) (change b) := by
  have untouched : ∀ s : State σ ω, (change s).metrics = s.metrics :=
    fun s => (congrArg State.metrics (apart s s.metrics) :)
  refine ⟨?_, by rw [untouched, untouched]; exact alike.metrics⟩
  rw [← apart, ← apart, alike.rest]

/-- A change of the metrics that neither reads the rates nor depends on them. -/
theorem measure (alike : Alike a b) (change : FrontfillMetrics → FrontfillMetrics)
    (keeps : ∀ m : FrontfillMetrics,
      (change m).withoutRates = (change m.withoutRates).withoutRates) :
    Alike (a.measure change) (b.measure change) := by
  refine ⟨alike.rest, ?_⟩
  have same := alike.metrics
  cases first : a.metrics with
  | none =>
      rw [first, Option.map_none, Option.map_eq_none_iff] at same
      simp [State.measure, first, same]
  | some m =>
      rw [first, Option.map_some, Option.map_eq_some_iff] at same
      obtain ⟨m', second, same⟩ := same
      have changed : (change m').withoutRates = (change m).withoutRates := by
        rw [keeps m', keeps m, same]
      simp [State.measure, first, second, changed]

end Alike

section Parts

variable {a b : State σ ω} {alloy : Alloy}

theorem Alike.fail (alike : Alike a b) {count : FrontfillMetrics → FrontfillMetrics}
    (keeps : ∀ m : FrontfillMetrics, (count m).withoutRates = (count m.withoutRates).withoutRates)
    (error : String) : Alike (a.fail count error) (b.fail count error) := by
  have counted := alike.measure (fun metrics => { count metrics with wsConnected := false })
    (fun m => congrArg (fun m : FrontfillMetrics => { m with wsConnected := false }) (keeps m))
  have left := counted.via (fun s => { s with
    phase := if a.metrics.isSome then .exiting (.error error) else .returned (.error error) })
    (fun _ _ => rfl)
  simpa only [State.fail, State.measure, alike.enabled] using left

theorem Alike.take (alike : Alike a b) (log : Log) :
    Alike (a.take alloy log) (b.take alloy log) := by
  have noted := alike.via (fun s => s.note (.received log)) (fun _ _ => rfl)
  unfold State.take
  cases checkMetadata alloy log with
  | error error => exact noted.fail (fun _ => rfl) error
  | ok taken =>
      have next := noted.via (fun s => { s with
        phase := if a.metrics.isSome then .observing taken else .locking taken }) (fun _ _ => rfl)
      simpa only [alike.enabled] using next

theorem Alike.decode (alike : Alike a b) (taken : Taken) :
    Alike (a.decode alloy taken) (b.decode alloy taken) := by
  unfold State.decode
  rcases decodeLog alloy taken.log with error | _ | decoded
  · exact alike.fail (fun _ => rfl) error
  · exact alike.via State.select (fun _ _ => rfl)
  · have next := alike.via (fun s => { s with phase :=
        if a.metrics.isSome then .observingType taken decoded else .writing taken decoded })
        (fun _ _ => rfl)
    simpa only [alike.enabled] using next

end Parts

section Steps

variable {config : FrontfillConfig} {alloy : Alloy} {a b a' : State σ ω} {input : Input ω}

theorem reconnect_alike (alike : Alike a b) (moved : reconnectStep config alloy a input = some a') :
    ∃ b', reconnectStep config alloy b input = some b' ∧ Alike a' b' := by
  cases input with
  | connect =>
      simp only [reconnectStep] at moved ⊢
      rw [alike.phase]
      split at moved
      · rename_i error starting failed
        obtain rfl := Option.some.inj moved
        exact ⟨_, rfl, alike.via (fun s => (s.note (.refused error)).leave error) (fun _ _ => rfl)⟩
      · rename_i ws starting built
        obtain rfl := Option.some.inj moved
        exact ⟨_, rfl, alike.via (fun s => { s with phase := .connecting ws }) (fun _ _ => rfl)⟩
      · cases moved
  | connected result =>
      simp only [reconnectStep] at moved ⊢
      rw [alike.phase]
      split at moved
      · rename_i connecting
        obtain rfl := Option.some.inj moved
        exact ⟨_, rfl, alike.via State.backOff (fun _ _ => rfl)⟩
      · rename_i error connecting failed
        obtain rfl := Option.some.inj moved
        exact ⟨_, rfl, alike.via (fun s => (s.note (.refused error)).leave error) (fun _ _ => rfl)⟩
      · rename_i filter connecting built
        obtain rfl := Option.some.inj moved
        exact ⟨_, rfl, alike.via (fun s => { s with phase := .subscribing filter })
          (fun _ _ => rfl)⟩
      · cases moved
  | subscribed result =>
      simp only [reconnectStep] at moved ⊢
      rw [alike.phase]
      split at moved
      · rename_i subscribing
        obtain rfl := Option.some.inj moved
        exact ⟨_, rfl, alike.via State.backOff (fun _ _ => rfl)⟩
      · rename_i subscribing
        obtain rfl := Option.some.inj moved
        have reset := alike.via (fun s => { s with reconnectAttempt := 0 }) (fun _ _ => rfl)
        have connected := reset.measure (fun metrics =>
          { metrics with wsConnected := true }) (fun _ => rfl)
        exact ⟨_, rfl, connected.via State.select (fun _ _ => rfl)⟩
      · cases moved
  | slept =>
      simp only [reconnectStep] at moved ⊢
      rw [alike.phase]
      split at moved
      · rename_i backoff
        obtain rfl := Option.some.inj moved
        exact ⟨_, rfl, alike.via (fun s => { s with phase := .starting }) (fun _ _ => rfl)⟩
      · cases moved
  | _ => cases moved

theorem select_alike (alike : Alike a b) (moved : selectStep alloy a input = some a') :
    ∃ b', selectStep alloy b input = some b' ∧ Alike a' b' := by
  cases input with
  | pollCtrlC result =>
      simp only [selectStep] at moved ⊢
      rw [alike.phase]
      split at moved
      · rename_i error selecting
        obtain rfl := Option.some.inj moved
        exact ⟨_, rfl, alike.via (fun s => (s.note (.refused error)).leave error) (fun _ _ => rfl)⟩
      · rename_i selecting
        obtain rfl := Option.some.inj moved
        exact ⟨_, rfl, alike.via (fun s => { s with
          phase := .selecting (some false), handlerInstalled := true }) (fun _ _ => rfl)⟩
      · cases moved
  | next log =>
      simp only [selectStep] at moved ⊢
      rw [alike.phase]
      split at moved
      · rename_i listener log selecting
        obtain rfl := Option.some.inj moved
        exact ⟨_, rfl, alike.take log⟩
      · rename_i listener selecting
        obtain rfl := Option.some.inj moved
        have ended := alike.measure (fun metrics =>
          { metrics with wsConnected := false }) (fun _ => rfl)
        exact ⟨_, rfl, ended.via State.backOff (fun _ _ => rfl)⟩
      · cases moved
  | shutdown =>
      simp only [selectStep] at moved ⊢
      rw [alike.phase]
      split at moved
      · rename_i selecting
        obtain rfl := Option.some.inj moved
        exact ⟨_, rfl, alike.via (fun s => { s with phase := .closing }) (fun _ _ => rfl)⟩
      · cases moved
  | _ => cases moved

theorem signal_alike (alike : Alike a b) (moved : signalStep a = some a') :
    ∃ b', signalStep b = some b' ∧ Alike a' b' := by
  have handler := alike.handler
  have phase := alike.phase
  unfold signalStep at moved
  split at moved
  · cases moved
  · rename_i listener selecting
    split at moved
    · rename_i installed
      obtain rfl := Option.some.inj moved
      refine ⟨_, ?_, alike.via (fun s => { s with
        signalled := true, phase := .selecting (some true) }) (fun _ _ => rfl)⟩
      simp only [signalStep, phase.trans selecting, handler.trans installed, if_true]
    · cases moved
  · rename_i alive idle
    split at moved
    · rename_i installed
      obtain rfl := Option.some.inj moved
      refine ⟨_, ?_, alike.via (fun s => { s with signalled := true }) (fun _ _ => rfl)⟩
      unfold signalStep
      split
      · rename_i result returned
        exact absurd (phase.symm.trans returned) (alive result)
      · rename_i listener selecting
        exact absurd (phase.symm.trans selecting) (idle listener)
      · rw [if_pos (handler.trans installed)]
    · cases moved

variable [EventSink σ ω]

theorem sink_alike {io : ω} (alike : Alike a b) (moved : sinkStep config alloy a io = some a') :
    ∃ b', sinkStep config alloy b io = some b' ∧ Alike a' b' := by
  unfold sinkStep at moved ⊢
  rw [alike.phase, alike.sink]
  split at moved
  · rename_i taken rotating
    split at moved
    · rename_i error sink call
      obtain rfl := Option.some.inj moved
      exact ⟨_, rfl, alike.via (fun s =>
        ({ s with sink := sink }.note (.sinkFailed error)).leave error) (fun _ _ => rfl)⟩
    · rename_i sink call
      obtain rfl := Option.some.inj moved
      have noted := alike.via (fun s => { s with sink := sink }.note (.rotated io)) (fun _ _ => rfl)
      have counted := noted.measure countRotation (fun _ => rfl)
      have opened := counted.via (fun s => s.openWindow config taken) (fun _ _ => rfl)
      exact ⟨_, rfl, opened.decode taken⟩
  · rename_i taken decoded writing
    split at moved
    · rename_i error sink call
      obtain rfl := Option.some.inj moved
      have noted := alike.via (fun s => { s with sink := sink }.note (.sinkFailed error))
        (fun _ _ => rfl)
      have observed := noted.measure observeDuration (fun _ => rfl)
      exact ⟨_, rfl, observed.fail (fun _ => rfl) error⟩
    · rename_i sink call
      obtain rfl := Option.some.inj moved
      have noted := alike.via
        (fun s => { s with sink := sink }.note (.wrote io (taken.call decoded))) (fun _ _ => rfl)
      have observed := noted.measure observeDuration (fun _ => rfl)
      exact ⟨_, rfl, observed.via State.select (fun _ _ => rfl)⟩
  · rename_i closing
    split at moved
    · rename_i error sink call
      obtain rfl := Option.some.inj moved
      exact ⟨_, rfl, alike.via (fun s =>
        ({ s with sink := sink }.note (.sinkFailed error)).leave error) (fun _ _ => rfl)⟩
    · rename_i sink call
      obtain rfl := Option.some.inj moved
      simp only [alike.enabled]
      have noted := alike.via (fun s => { s with sink := sink }.note (.closed io)) (fun _ _ => rfl)
      have counted := noted.measure countShutdown (fun _ => rfl)
      exact ⟨_, rfl, counted.via (fun s => { s with
        phase := if a.metrics.isSome then .exiting (.ok ()) else .returned (.ok ()) })
        (fun _ _ => rfl)⟩
  · cases moved

theorem process_alike (alike : Alike a b) (moved : processStep config alloy a input = some a') :
    ∃ b', processStep config alloy b input = some b' ∧ Alike a' b' := by
  cases input with
  | observe unixSeconds =>
      simp only [processStep] at moved ⊢
      rw [alike.phase]
      split at moved
      · rename_i taken observing
        obtain rfl := Option.some.inj moved
        have counted := alike.measure (fun metrics =>
          metrics.observeLogCounters taken.blockNumber unixSeconds) (fun _ => rfl)
        exact ⟨_, rfl, counted.via (fun s => { s with phase := .recording taken }) (fun _ _ => rfl)⟩
      · rename_i taken decoded observing
        obtain rfl := Option.some.inj moved
        have counted := alike.measure (fun metrics =>
          metrics.observeDecodedTypeCounters decoded.eventType) (fun _ => rfl)
        exact ⟨_, rfl, counted.via (fun s => { s with phase := .recordingType taken decoded })
          (fun _ _ => rfl)⟩
      · cases moved
  | record seen now =>
      simp only [processStep] at moved ⊢
      rw [alike.phase]
      split at moved
      · rename_i taken recording
        obtain rfl := Option.some.inj moved
        have recorded := alike.measure (fun metrics =>
          metrics.observeLogRates seen now) (fun _ => rfl)
        exact ⟨_, rfl, recorded.via (fun s => { s with phase := .locking taken }) (fun _ _ => rfl)⟩
      · rename_i taken decoded recording
        obtain rfl := Option.some.inj moved
        have recorded := alike.measure (fun metrics =>
          metrics.observeDecodedTypeRates decoded.eventType seen now) (fun _ => rfl)
        exact ⟨_, rfl, recorded.via (fun s => { s with phase := .writing taken decoded })
          (fun _ _ => rfl)⟩
      · cases moved
  | lock =>
      have window := alike.window
      have phase := alike.phase
      simp only [processStep] at moved
      split at moved
      · rename_i taken target locking due
        split at moved
        · rename_i isDue
          obtain rfl := Option.some.inj moved
          refine ⟨_, ?_, alike.via (fun s => { s with phase := .rotating taken }) (fun _ _ => rfl)⟩
          simp only [processStep, phase.trans locking, window.trans due, isDue, if_true]
        · rename_i early
          obtain rfl := Option.some.inj moved
          refine ⟨_, ?_, alike.decode taken⟩
          simp only [processStep, phase.trans locking, window.trans due, early, if_false]
      · rename_i taken locking due
        obtain rfl := Option.some.inj moved
        refine ⟨_, ?_,
          (alike.via (fun s => s.openWindow config taken) (fun _ _ => rfl)).decode taken⟩
        simp only [processStep, phase.trans locking, window.trans due]
      · cases moved
  | sink io => exact sink_alike alike moved
  | metricsStopped =>
      simp only [processStep] at moved ⊢
      rw [alike.phase]
      split at moved
      · rename_i result exiting
        obtain rfl := Option.some.inj moved
        exact ⟨_, rfl, alike.via (fun s => { s with phase := .returned result }) (fun _ _ => rfl)⟩
      · cases moved
  | _ => cases moved

theorem step_alike (alike : Alike a b) (moved : step config alloy a input = some a') :
    ∃ b', step config alloy b input = some b' ∧ Alike a' b' := by
  unfold step at moved ⊢
  cases input with
  | connect | connected | subscribed | slept => exact reconnect_alike alike moved
  | pollCtrlC | next | shutdown => exact select_alike alike moved
  | observe | record | lock | sink | metricsStopped => exact process_alike alike moved
  | signal => exact signal_alike alike moved

end Steps

section Run

theorem publishRates_alike (s : State σ ω) (event : UpdaterEvent) :
    Alike (s.measure (publishRates event)) s := by
  refine ⟨rfl, ?_⟩
  have same : ∀ m : FrontfillMetrics, (publishRates event m).withoutRates = m.withoutRates := by
    intro m
    cases event <;> rfl
  cases metrics : s.metrics with
  | none => simp [State.measure, metrics]
  | some m => simp [State.measure, metrics, same]

theorem Alike.trans {a b c : State σ ω} (first : Alike a b) (second : Alike b c) : Alike a c :=
  ⟨second.rest.trans first.rest, second.metrics.trans first.metrics⟩

theorem Alike.symm {a b : State σ ω} (alike : Alike a b) : Alike b a :=
  ⟨alike.rest.symm, alike.metrics.symm⟩

/-- The step that the run itself takes. -/
def HostedInput.own? : HostedInput ω E → Option (Input ω)
  | .run input => some input
  | _ => none

variable [EventSink σ ω] {config : FrontfillConfig} {alloy : Alloy} {exporter : Exporter}
  {http : HttpServer S E}
  {s : State σ ω} {h : Hosted σ ω S} {inputs : List (HostedInput ω E)}

/-- A hosted run takes its own steps as a plain run does. -/
theorem hosted_run (run : Machine.exec (hostedStep config alloy exporter http)
      { run := s, runtime := .started http } inputs = some h) :
    ∃ t, Machine.exec (step config alloy) s (inputs.filterMap HostedInput.own?) = some t ∧
      Alike h.run t := by
  have simulates : ∀ (a : Hosted σ ω S) (u : State σ ω) (i : HostedInput ω E) (b : Hosted σ ω S),
      Alike a.run u → hostedStep config alloy exporter http a i = some b →
      ∃ js v, js = i.own?.toList ∧ Machine.exec (step config alloy) u js = some v ∧
        Alike b.run v := by
    intro a u i b alike moved
    rcases hosted_cases moved with ⟨own, run, rfl, -, stepped, rfl⟩ |
      ⟨event, runtime, rfl, -, rfl⟩ | ⟨event, metrics, runtime, rfl, -, -, rfl⟩ |
      ⟨event, runtime, rfl, -, rfl⟩
    · obtain ⟨v, stepped', alike'⟩ := step_alike alike stepped
      exact ⟨[own], v, rfl, (Machine.exec_cons _).mpr ⟨v, stepped', rfl⟩, alike'⟩
    · exact ⟨[], u, rfl, rfl, (publishRates_alike a.run event).trans alike⟩
    · exact ⟨[], u, rfl, rfl, alike⟩
    · exact ⟨[], u, rfl, rfl, alike⟩
  obtain ⟨jss, t, shown, moves, alike⟩ :=
    Machine.exec_simulates simulates (Alike.refl s) run
  have own : jss.flatten = inputs.filterMap HostedInput.own? := by
    clear moves run
    induction shown with
    | nil => rfl
    | @cons i js inputs jss first rest ih =>
        subst first
        cases owned : i.own? <;> simp [owned, ih]
  exact ⟨t, own ▸ moves, alike⟩

/-- Until it waits for its runtime, a step of the run waits for one step of the updater at most. -/
theorem lock_released {own : Input ω} {u : State σ ω} (waiting : own ≠ .metricsStopped)
    (possible : step config alloy h.run own = some u) :
    ∃ before h', before.length ≤ 1 ∧ (∀ input ∈ before, input.own? = none) ∧
      Machine.exec (hostedStep config alloy exporter http) h (before ++ [.run own]) = some h' ∧
      Alike h'.run u := by
  by_cases allowed : mayRun h.runtime own = true
  · refine ⟨[], { run := u, runtime := handOver h.runtime u.phase }, Nat.zero_le _, by simp,
      (Machine.exec_cons _).mpr ⟨_, ?_, rfl⟩, Alike.refl u⟩
    rw [hostedStep, if_pos allowed, possible]
    rfl
  · cases own with
    | record seen now =>
        have publishing : h.runtime.updater = .publishing := by
          simpa [mayRun] using allowed
        obtain ⟨v, stepped, alike⟩ :=
          step_alike (publishRates_alike h.run (.publish now)).symm possible
        let free : Hosted σ ω S :=
          { run := h.run.measure (publishRates (.publish now))
            runtime := { h.runtime with updater := .selecting } }
        have published : hostedStep config alloy exporter http h (.updater (.publish now)) =
            some free := by
          simp [hostedStep, updaterStep, publishing, free]
        refine ⟨[.updater (.publish now)],
          { run := v, runtime := handOver free.runtime v.phase }, Nat.le_refl _, ?_,
          (Machine.exec_cons _).mpr ⟨free, published, (Machine.exec_cons _).mpr ⟨_, ?_, rfl⟩⟩,
          alike.symm⟩
        · intro input member
          obtain rfl := List.mem_singleton.mp member
          rfl
        · have open_ : mayRun free.runtime (.record seen now : Input ω) = true := rfl
          rw [hostedStep, if_pos open_, stepped]
          rfl
    | metricsStopped => exact absurd rfl waiting
    | _ => exact absurd rfl allowed

/-- A run beside its tasks is a plain run over its own steps: the same phase, sink, trace and
counters, whatever the tasks do in between, and only the rates may differ. The tasks hardly hold
it up either: but for the wait for the runtime itself, which ends when they have, a step that the
run could take waits for one step of the updater at most. -/
theorem tasks_do_not_interfere (run : Machine.exec (hostedStep config alloy exporter http)
      { run := s, runtime := .started http } inputs = some h) :
    (∃ t, Machine.exec (step config alloy) s (inputs.filterMap HostedInput.own?) = some t ∧
      Alike h.run t) ∧
    ∀ own u, own ≠ .metricsStopped → step config alloy h.run own = some u →
      ∃ before h', before.length ≤ 1 ∧ (∀ input ∈ before, input.own? = none) ∧
        Machine.exec (hostedStep config alloy exporter http) h (before ++ [.run own]) = some h' ∧
        Alike h'.run u :=
  ⟨hosted_run run, fun _ _ waiting possible => lock_released waiting possible⟩

end Run

section Example

/-- The updater has the lock of the rates while a log waits to be recorded. -/
def contended : List (HostedInput ParquetIo OneByOneEvent) :=
  connecting.map .run ++ [.run (.next (some (cancelled 10 0))), .updater .tick, .updater .lock,
    .run (.observe 7)]

theorem tasks_do_not_interfere_contended : ∃ h t before h', hosted contended = some h ∧
    h.runtime.updater = .publishing ∧
    Machine.exec (step measuredConfig Reference.alloy) measuredStart
      (connecting ++ [.next (some (cancelled 10 0)), .observe 7]) = some t ∧ Alike h.run t ∧
    before.length ≤ 1 ∧
    Machine.exec (hostedStep measuredConfig Reference.alloy plainText oneByOne) h
      (before ++ [.run (.record 1 2)]) = some h' := by
  have reached : (hosted contended).isSome := by
    rw [contended, hosted_connecting]
    rfl
  obtain ⟨h, run⟩ := Option.isSome_iff_exists.mp reached
  have heard := run
  rw [contended, hosted_connecting] at heard
  have publishing : h.runtime.updater = .publishing := seen (fun h => h.runtime.updater) heard rfl
  have possible : (step measuredConfig Reference.alloy h.run (.record 1 2)).isSome :=
    seen (fun h => (step measuredConfig Reference.alloy h.run (.record 1 2)).isSome) heard rfl
  obtain ⟨u, possible⟩ := Option.isSome_iff_exists.mp possible
  obtain ⟨⟨t, own, alike⟩, proceeds⟩ := tasks_do_not_interfere run
  obtain ⟨before, h', short, -, moved, -⟩ := proceeds (.record 1 2) u nofun possible
  exact ⟨h, t, before, h', run, publishing, own, alike, short, moved⟩

end Example

end Frontfill

end PolymarketIndexer
