import PolymarketIndexer.Metrics.Rates
import PolymarketIndexer.Frontfill.Interference

/-! # The rates of a hosted run

The run counts what it observes and records it later, under the lock of the rates; the updater
publishes under the same lock in between. A step of the run counts, records what it counted, or
leaves the totals and the rates alone.
-/

namespace PolymarketIndexer

open Unordered SlidingWindow

/-- The totals and rates of the metrics. -/
structure Tallies where
  logsTotal : Nat
  logsByTypeTotal : Map String Nat
  logsPerMinute : Nat
  logsPerMinuteByType : Map String Nat
  rateState : RateState

def FrontfillMetrics.tallies (metrics : FrontfillMetrics) : Tallies where
  logsTotal := metrics.logsTotal
  logsByTypeTotal := metrics.logsByTypeTotal
  logsPerMinute := metrics.logsPerMinute
  logsPerMinuteByType := metrics.logsPerMinuteByType
  rateState := metrics.rateState

namespace Frontfill

variable {σ ω S E : Type}

/-- What was counted and is still to be recorded. -/
def State.waiting (s : State σ ω) : Option Observation :=
  match s.phase, s.metrics with
  | .recording taken, some metrics => some (.log taken.blockNumber metrics.lastLogUnixSeconds)
  | .recordingType _ decoded, some _ => some (.decodedType decoded.eventType)
  | _, _ => none

def Phase.waits : Phase → Bool
  | .recording _ | .recordingType _ _ => true
  | _ => false

section Steps

variable {config : FrontfillConfig} {alloy : Alloy} {s t : State σ ω} {m : FrontfillMetrics}
  {input : Input ω}

theorem idle_waiting (idle : s.phase.waits = false) : s.waiting = none := by
  unfold State.waiting
  split
  · rename_i recording _
    rw [recording] at idle
    cases idle
  · rename_i recording _
    rw [recording] at idle
    cases idle
  · rfl

/-- The kinds of steps. -/
inductive Observes (s : State σ ω) (m : FrontfillMetrics) : Input ω → State σ ω → Prop where
  | counted {t : State σ ω} {unixSeconds : UInt64} {what : Observation} (idle : s.waiting = none)
      (metrics : t.metrics = some (what.count m)) (waits : t.waiting = some what) :
      Observes s m (.observe unixSeconds) t
  | recorded {t : State σ ω} {seen now : Instant} {what : Observation}
      (waits : s.waiting = some what) (metrics : t.metrics = some (what.record m seen now))
      (idle : t.waiting = none) : Observes s m (.record seen now) t
  | apart {t : State σ ω} {m' : FrontfillMetrics} {input : Input ω}
      (metrics : t.metrics = some m') (tallies : m'.tallies = m.tallies)
      (waits : t.waiting = s.waiting) (recording : ∀ seen now, input ≠ .record seen now) :
      Observes s m input t

/-- A step between two phases in which nothing waits. -/
theorem Observes.between {before : Phase} {m' : FrontfillMetrics} (was : s.phase = before)
    (idle : before.waits = false) (still : t.phase.waits = false) (metrics : t.metrics = some m')
    (tallies : m'.tallies = m.tallies) (recording : ∀ seen now, input ≠ .record seen now) :
    Observes s m input t := by
  subst was
  exact .apart metrics tallies ((idle_waiting still).trans (idle_waiting idle).symm) recording

theorem fail_apart {u : State σ ω} (metrics : u.metrics = some m)
    (count : FrontfillMetrics → FrontfillMetrics) (error : String) :
    (u.fail count error).phase.waits = false ∧
      (u.fail count error).metrics = some { count m with wsConnected := false } := by
  constructor
  · simp [State.fail, metrics, Phase.waits]
  · simp [State.fail, metrics]

/-- A log in hand is decoded without a word to the rates. -/
theorem decode_apart {u : State σ ω} {taken : Taken} (metrics : u.metrics = some m) :
    (u.decode alloy taken).phase.waits = false ∧
      ∃ m', (u.decode alloy taken).metrics = some m' ∧ m'.tallies = m.tallies := by
  unfold State.decode
  rcases decodeLog alloy taken.log with error | _ | decoded
  · obtain ⟨still, failed⟩ := fail_apart metrics countDecodeError error
    exact ⟨still, _, failed, rfl⟩
  · exact ⟨rfl, m, metrics, rfl⟩
  · exact ⟨by simp [metrics, Phase.waits], m, metrics, rfl⟩

theorem reconnect_observes (metrics : s.metrics = some m)
    (h : reconnectStep config alloy s input = some t) : Observes s m input t := by
  cases input with
  | connect =>
      simp only [reconnectStep] at h
      split at h
      · rename_i error starting failed
        obtain rfl := Option.some.inj h
        exact .between starting rfl rfl metrics rfl (by simp)
      · rename_i ws starting built
        obtain rfl := Option.some.inj h
        exact .between starting rfl rfl metrics rfl (by simp)
      · cases h
  | connected result =>
      simp only [reconnectStep] at h
      split at h
      · rename_i connecting
        obtain rfl := Option.some.inj h
        exact .between connecting rfl rfl metrics rfl (by simp)
      · rename_i error connecting failed
        obtain rfl := Option.some.inj h
        exact .between connecting rfl rfl metrics rfl (by simp)
      · rename_i filter connecting built
        obtain rfl := Option.some.inj h
        exact .between connecting rfl rfl metrics rfl (by simp)
      · cases h
  | subscribed result =>
      simp only [reconnectStep] at h
      split at h
      · rename_i subscribing
        obtain rfl := Option.some.inj h
        exact .between subscribing rfl rfl metrics rfl (by simp)
      · rename_i filter _ subscribing
        obtain rfl := Option.some.inj h
        exact .between subscribing rfl rfl (measured metrics _) rfl (by simp)
      · cases h
  | slept =>
      simp only [reconnectStep] at h
      split at h
      · rename_i backoff
        obtain rfl := Option.some.inj h
        exact .between backoff rfl rfl metrics rfl (by simp)
      · cases h
  | _ => cases h

theorem select_observes (metrics : s.metrics = some m) (h : selectStep alloy s input = some t) :
    Observes s m input t := by
  cases input with
  | pollCtrlC result =>
      simp only [selectStep] at h
      split at h
      · rename_i error selecting
        obtain rfl := Option.some.inj h
        exact .between selecting rfl rfl metrics rfl (by simp)
      · rename_i selecting
        obtain rfl := Option.some.inj h
        exact .between selecting rfl rfl metrics rfl (by simp)
      · cases h
  | next log =>
      simp only [selectStep] at h
      split at h
      · rename_i listener log selecting
        obtain rfl := Option.some.inj h
        unfold State.take
        split
        · rename_i error checked
          have noted : (s.note (.received log)).metrics = some m := metrics
          obtain ⟨still, failed⟩ := fail_apart noted countMissingMetadata error
          exact .between selecting rfl still failed rfl (by simp)
        · refine .between selecting rfl ?_ metrics rfl (by simp)
          simp [metrics, Phase.waits]
      · rename_i listener selecting
        obtain rfl := Option.some.inj h
        exact .between selecting rfl rfl (measured metrics _) rfl (by simp)
      · cases h
  | shutdown =>
      simp only [selectStep] at h
      split at h
      · rename_i selecting
        obtain rfl := Option.some.inj h
        exact .between selecting rfl rfl metrics rfl (by simp)
      · cases h
  | _ => cases h

theorem signal_observes (metrics : s.metrics = some m) (h : signalStep s = some t) :
    Observes s m .signal t := by
  unfold signalStep at h
  split at h
  · cases h
  · rename_i listener selecting
    split at h
    · obtain rfl := Option.some.inj h
      exact .between selecting rfl rfl metrics rfl (by simp)
    · cases h
  · split at h
    · obtain rfl := Option.some.inj h
      exact .apart metrics rfl rfl (by simp)
    · cases h

variable [EventSink σ ω]

theorem sink_observes {io : ω} (metrics : s.metrics = some m)
    (h : sinkStep config alloy s io = some t) : Observes s m (.sink io) t := by
  unfold sinkStep at h
  split at h
  · rename_i taken rotating
    split at h
    · obtain rfl := Option.some.inj h
      exact .between rotating rfl rfl metrics rfl (by simp)
    · rename_i sink call
      obtain rfl := Option.some.inj h
      have counted : ((({ s with sink := sink }.note (.rotated io)).measure
          countRotation).openWindow config taken).metrics = some (countRotation m) := by
        simp [State.openWindow, State.measure, State.note, metrics]
      obtain ⟨still, m', metrics', tallies⟩ := @decode_apart _ _ alloy _ _ taken counted
      exact .between rotating rfl still metrics' tallies (by simp)
  · rename_i taken decoded writing
    split at h
    · rename_i error sink call
      obtain rfl := Option.some.inj h
      have timed : (({ s with sink := sink }.note (.sinkFailed error)).measure
          observeDuration).metrics = some (observeDuration m) := measured metrics _
      obtain ⟨still, failed⟩ := fail_apart timed countWriteError error
      exact .between writing rfl still failed rfl (by simp)
    · obtain rfl := Option.some.inj h
      exact .between writing rfl rfl (measured metrics _) rfl (by simp)
  · rename_i closing
    split at h
    · obtain rfl := Option.some.inj h
      exact .between closing rfl rfl metrics rfl (by simp)
    · obtain rfl := Option.some.inj h
      refine .between closing rfl ?_ (measured metrics _) rfl (by simp)
      simp [metrics, Phase.waits]
  · cases h

theorem process_observes (metrics : s.metrics = some m)
    (h : processStep config alloy s input = some t) : Observes s m input t := by
  cases input with
  | observe unixSeconds =>
      simp only [processStep] at h
      split at h
      · rename_i taken observing
        obtain rfl := Option.some.inj h
        refine @Observes.counted _ _ _ _ _ _ (.log taken.blockNumber unixSeconds)
          (idle_waiting (by rw [observing]; rfl)) (measured metrics _) ?_
        simp [State.waiting, measured metrics, FrontfillMetrics.observeLogCounters]
      · rename_i taken decoded observing
        obtain rfl := Option.some.inj h
        refine @Observes.counted _ _ _ _ _ _ (.decodedType decoded.eventType)
          (idle_waiting (by rw [observing]; rfl)) (measured metrics _) ?_
        simp [State.waiting, measured metrics]
      · cases h
  | record seen now =>
      simp only [processStep] at h
      split at h
      · rename_i taken recording
        obtain rfl := Option.some.inj h
        refine @Observes.recorded _ _ _ _ _ _ _
          (.log taken.blockNumber m.lastLogUnixSeconds) ?_ (measured metrics _) (idle_waiting rfl)
        simp [State.waiting, recording, metrics]
      · rename_i taken decoded recording
        obtain rfl := Option.some.inj h
        refine @Observes.recorded _ _ _ _ _ _ _ (.decodedType decoded.eventType) ?_
          (measured metrics _) (idle_waiting rfl)
        simp [State.waiting, recording, metrics]
      · cases h
  | lock =>
      simp only [processStep] at h
      split at h
      · rename_i taken target locking due
        split at h
        · obtain rfl := Option.some.inj h
          exact .between locking rfl rfl metrics rfl (by simp)
        · obtain rfl := Option.some.inj h
          obtain ⟨still, m', metrics', tallies⟩ := @decode_apart _ _ alloy _ _ taken metrics
          exact .between locking rfl still metrics' tallies (by simp)
      · rename_i taken locking due
        obtain rfl := Option.some.inj h
        have same : (s.openWindow config taken).metrics = some m := metrics
        obtain ⟨still, m', metrics', tallies⟩ := @decode_apart _ _ alloy _ _ taken same
        exact .between locking rfl still metrics' tallies (by simp)
      · cases h
  | sink io => exact sink_observes metrics h
  | metricsStopped =>
      simp only [processStep] at h
      split at h
      · rename_i result exiting
        obtain rfl := Option.some.inj h
        exact .between exiting rfl rfl metrics rfl (by simp)
      · cases h
  | _ => cases h

theorem step_observes (metrics : s.metrics = some m) (h : step config alloy s input = some t) :
    Observes s m input t := by
  unfold step at h
  cases input with
  | connect | connected | subscribed | slept => exact reconnect_observes metrics h
  | pollCtrlC | next | shutdown => exact select_observes metrics h
  | observe | record | lock | sink | metricsStopped => exact process_observes metrics h
  | signal => exact signal_observes metrics h

end Steps

/-- What a step records, with the reading of the clock from before the lock. -/
def HostedInput.records (h : Hosted σ ω S) : HostedInput ω E → Option (Observation × Instant)
  | .run (.record seen _) => h.run.waiting.map (fun what => (what, seen))
  | _ => none

/-- The reading of the clock with which an input prunes, under the lock of the rates. -/
def HostedInput.prunesAt : HostedInput ω E → Option Instant
  | .run (.record _ now) => some now
  | .updater (.publish now) => some now
  | _ => none

/-- The readings of the clock that the run takes itself. -/
def HostedInput.clock : HostedInput ω E → List Instant
  | .run (.record seen now) => [seen, now]
  | _ => []

/-- The clock goes back neither for the run nor under the lock. -/
structure Ticking (began : Instant) (inputs : List (HostedInput ω E)) : Prop where
  run : (inputs.flatMap HostedInput.clock).Pairwise (· ≤ ·)
  lock : (began :: inputs.filterMap HostedInput.prunesAt).Pairwise (· ≤ ·)

/-- The reading of the last prune. -/
def lastPrune (began : Instant) (inputs : List (HostedInput ω E)) : Instant :=
  (inputs.filterMap HostedInput.prunesAt).getLastD began

section Clock

variable {began now : Instant} {inputs : List (HostedInput ω E)} {input : HostedInput ω E}

theorem Ticking.before (ticking : Ticking began (inputs ++ [input])) : Ticking began inputs := by
  obtain ⟨run, lock⟩ := ticking
  rw [List.flatMap_append] at run
  rw [List.filterMap_append, ← List.cons_append] at lock
  exact ⟨run.sublist (List.sublist_append_left _ _), lock.sublist (List.sublist_append_left _ _)⟩

theorem lastPrune_idle (idle : input.prunesAt = none) :
    lastPrune began (inputs ++ [input]) = lastPrune began inputs := by
  simp [lastPrune, List.filterMap_append, idle]

/-- But for its records the run neither prunes nor records. -/
theorem own_silent (h : Hosted σ ω S) {own : Input ω}
    (recording : ∀ seen now, own ≠ .record seen now) :
    HostedInput.prunesAt (.run own : HostedInput ω E) = none ∧
      HostedInput.records h (.run own : HostedInput ω E) = none := by
  cases own with
  | record seen now => exact absurd rfl (recording seen now)
  | _ => exact ⟨rfl, rfl⟩

theorem lastPrune_snoc (prunes : input.prunesAt = some now) :
    lastPrune began (inputs ++ [input]) = now := by
  simp [lastPrune, List.filterMap_append, prunes]

theorem Ticking.lastPrune_le (ticking : Ticking began (inputs ++ [input]))
    (prunes : input.prunesAt = some now) : lastPrune began inputs ≤ now := by
  have lock := ticking.lock
  rw [List.filterMap_append, ← List.cons_append, List.filterMap_cons, prunes] at lock
  have last : lastPrune began inputs ∈ began :: inputs.filterMap HostedInput.prunesAt := by
    rw [lastPrune, List.getLastD_eq_getLast?]
    cases ended : (inputs.filterMap HostedInput.prunesAt).getLast? with
    | none => exact List.mem_cons_self
    | some reading => exact List.mem_cons_of_mem _ (List.mem_of_getLast? ended)
  exact (List.pairwise_append.mp lock).2.2 _ last _ (List.mem_singleton_self now)

/-- The readings of a run follow its clock. -/
theorem records_clock {readings : Readings}
    (follow : (readings.map Prod.snd).Sublist (inputs.flatMap HostedInput.clock))
    (h : Hosted σ ω S) (input : HostedInput ω E) :
    ((readings ++ (input.records h).toList).map Prod.snd).Sublist
      ((inputs ++ [input]).flatMap HostedInput.clock) := by
  rw [List.map_append, List.flatMap_append]
  refine follow.append ?_
  cases recorded : input.records h with
  | none => exact List.nil_sublist _
  | some reading =>
      unfold HostedInput.records at recorded
      split at recorded
      · obtain ⟨what, -, rfl⟩ := Option.map_eq_some_iff.mp recorded
        simp [HostedInput.clock]
      · cases recorded

end Clock

/-- What a hosted run keeps of its rates. -/
structure Rated (cutoff : Instant) (readings : Readings) (s : State σ ω) (m : FrontfillMetrics) :
    Prop where
  metrics : s.metrics = some m
  exact_ : Exact cutoff readings m
  logs : m.logsTotal = (readings.map Prod.fst ++ s.waiting.toList).countP Observation.isLog
  types : ∀ eventType, (m.logsByTypeTotal.lookup eventType).getD 0 =
    (readings.map Prod.fst ++ s.waiting.toList).countP (Observation.isType eventType)

section Rated

variable {cutoff now seen : Instant} {readings : Readings} {s t : State σ ω}
  {m m' : FrontfillMetrics} {what : Observation}

theorem Rated.count (rated : Rated cutoff readings s m) (idle : s.waiting = none)
    (metrics : t.metrics = some (what.count m)) (waits : t.waiting = some what) :
    Rated cutoff readings t (what.count m) := by
  obtain ⟨-, exact_, logs, types⟩ := rated
  rw [idle, Option.toList_none, List.append_nil] at logs
  simp only [idle, Option.toList_none, List.append_nil] at types
  refine ⟨metrics, exact_.count what, ?_, fun eventType => ?_⟩
  · rw [waits, Option.toList_some, List.countP_append, ← logs]
    cases what <;> rfl
  · rw [waits, Option.toList_some, List.countP_append, ← types]
    cases what with
    | log blockNumber unixSeconds => rfl
    | decodedType other =>
        by_cases same : eventType = other
        · obtain rfl := same
          simp [Observation.count, FrontfillMetrics.observeDecodedTypeCounters, Observation.isType]
        · simp [Observation.count, FrontfillMetrics.observeDecodedTypeCounters, Observation.isType,
            AList.lookup_insert_ne same, Ne.symm same]

theorem Rated.record (rated : Rated cutoff readings s m) (waits : s.waiting = some what)
    (metrics : t.metrics = some (what.record m seen now)) (idle : t.waiting = none)
    (sorted : ((readings ++ [(what, seen)]).map Prod.snd).Pairwise (· ≤ ·))
    (le : cutoff ≤ now - sixtySeconds) :
    Rated (now - sixtySeconds) (readings ++ [(what, seen)]) t (what.record m seen now) := by
  obtain ⟨-, exact_, logs, types⟩ := rated
  have same : (readings ++ [(what, seen)]).map Prod.fst ++ t.waiting.toList =
      readings.map Prod.fst ++ s.waiting.toList := by
    simp [waits, idle]
  refine ⟨metrics, exact_.record sorted le, ?_, fun eventType => ?_⟩
  · rw [same, ← logs]
    cases what <;> rfl
  · rw [same, ← types]
    cases what <;> rfl

theorem publishRates_waiting (s : State σ ω) (event : UpdaterEvent) :
    (s.measure (publishRates event)).waiting = s.waiting := by
  unfold State.waiting State.measure
  cases s.phase <;> cases s.metrics <;> cases event <;> rfl

theorem Rated.publish (rated : Rated cutoff readings s m)
    (sorted : (readings.map Prod.snd).Pairwise (· ≤ ·)) (le : cutoff ≤ now - sixtySeconds) :
    Rated (now - sixtySeconds) readings (s.measure (pruneAndRecalculateRates now))
      (pruneAndRecalculateRates now m) := by
  obtain ⟨metrics, exact_, logs, types⟩ := rated
  have waits := publishRates_waiting s (.publish now)
  exact ⟨measured metrics _, exact_.tick sorted le, logs.trans (by rw [← waits]; rfl),
    fun eventType => (types eventType).trans (by rw [← waits]; rfl)⟩

theorem Rated.apart (rated : Rated cutoff readings s m) (metrics : t.metrics = some m')
    (tallies : m'.tallies = m.tallies) (waits : t.waiting = s.waiting) :
    Rated cutoff readings t m' := by
  obtain ⟨-, exact_, logs, types⟩ := rated
  simp only [FrontfillMetrics.tallies, Tallies.mk.injEq] at tallies
  obtain ⟨total, byType, perMinute, perMinuteByType, state⟩ := tallies
  refine ⟨metrics, ⟨?_, ?_, ?_, ?_⟩, by rw [total, waits]; exact logs,
    by rw [byType, waits]; exact types⟩
  · rw [state]; exact exact_.total
  · rw [state]; exact exact_.byType
  · rw [perMinute, state]; exact exact_.perMinute
  · rw [perMinuteByType, state]; exact exact_.perMinuteByType

end Rated

section Run

variable [EventSink σ ω] {config : FrontfillConfig} {alloy : Alloy} {exporter : Exporter}
  {http : HttpServer S E}
  {s : State σ ω} {h h' : Hosted σ ω S} {inputs past : List (HostedInput ω E)}
  {input : HostedInput ω E} {began : Instant} {readings : Readings} {m : FrontfillMetrics}

/-- A step that prunes makes the rates exact at its own reading, and any other leaves them as
they were. -/
theorem hosted_step_rated
    (rated : Rated (lastPrune began past - sixtySeconds) readings h.run m)
    (sorted : ((readings ++ (input.records h).toList).map Prod.snd).Pairwise (· ≤ ·))
    (ticking : Ticking began (past ++ [input]))
    (moved : hostedStep config alloy exporter http h input = some h') :
    ∃ m', Rated (lastPrune began (past ++ [input]) - sixtySeconds)
      (readings ++ (input.records h).toList) h'.run m' := by
  rcases hosted_cases moved with ⟨own, run, rfl, -, stepped, rfl⟩ |
    ⟨event, runtime, rfl, -, rfl⟩ | ⟨event, metrics, runtime, rfl, -, -, rfl⟩ |
    ⟨event, runtime, rfl, -, rfl⟩
  · cases step_observes rated.metrics stepped with
    | counted idle metrics waits =>
        rw [lastPrune_idle rfl]
        simpa [HostedInput.records] using ⟨_, rated.count idle metrics waits⟩
    | @recorded _ seen now what waits metrics idle =>
        have records : HostedInput.records h (.run (.record seen now) : HostedInput ω E) =
            some (what, seen) := by
          rw [HostedInput.records, waits]
          rfl
        rw [records, Option.toList_some] at sorted ⊢
        have le := Int.sub_le_sub_right (ticking.lastPrune_le rfl) sixtySeconds
        rw [lastPrune_snoc rfl]
        exact ⟨_, rated.record waits metrics idle sorted le⟩
    | apart metrics tallies waits recording =>
        obtain ⟨prunes, records⟩ := @own_silent σ ω S E h _ recording
        rw [lastPrune_idle prunes, records, Option.toList_none, List.append_nil]
        exact ⟨_, rated.apart metrics tallies waits⟩
  · have records : HostedInput.records h (.updater event : HostedInput ω E) = none := rfl
    rw [records, Option.toList_none, List.append_nil] at sorted ⊢
    cases event with
    | publish now =>
        have le := Int.sub_le_sub_right (ticking.lastPrune_le rfl) sixtySeconds
        rw [lastPrune_snoc rfl]
        exact ⟨_, rated.publish sorted le⟩
    | _ =>
        rw [lastPrune_idle rfl]
        exact ⟨m, rated.apart (measured rated.metrics _) rfl (publishRates_waiting h.run _)⟩
  · rw [lastPrune_idle rfl]
    simpa [HostedInput.records] using ⟨_, rated⟩
  · rw [lastPrune_idle rfl]
    simpa [HostedInput.records] using ⟨_, rated⟩

/-- What a hosted run recorded, with the readings from before the lock. -/
def readingsOf (config : FrontfillConfig) (alloy : Alloy) (exporter : Exporter)
    (http : HttpServer S E) (s : State σ ω) (inputs : List (HostedInput ω E)) : Readings :=
  Machine.outputs (hostedStep config alloy exporter http) HostedInput.records
    { run := s, runtime := .started http } inputs

theorem hosted_rated {storage : Except String σ} (enabled : config.metricsEnabled = true)
    (start : launch config storage (.ok FrontfillMetrics.register) = .ok s)
    (ticking : Ticking began inputs)
    (run : Machine.exec (hostedStep config alloy exporter http)
      { run := s, runtime := .started http } inputs = some h) :
    ∃ m, Rated (lastPrune began inputs - sixtySeconds)
      (readingsOf config alloy exporter http s inputs) h.run m := by
  -- The readings follow the clock, so they are in order, as the queues need them.
  suffices kept : ((readingsOf config alloy exporter http s inputs).map Prod.snd).Sublist
        (inputs.flatMap HostedInput.clock) ∧
      ∃ m, Rated (lastPrune began inputs - sixtySeconds)
        (readingsOf config alloy exporter http s inputs) h.run m from kept.2
  obtain ⟨-, -, phase, -⟩ := launch_start start
  induction inputs using List.reverseRecOn generalizing h with
  | nil =>
      obtain rfl := Option.some.inj run
      have idle : s.waiting = none := idle_waiting (by rw [phase]; rfl)
      exact ⟨.refl _, _, launch_metrics enabled start, ⟨rfl, fun _ => rfl, rfl, fun _ => rfl⟩,
        by rw [idle]; rfl, fun _ => by rw [idle]; rfl⟩
  | append_singleton past input ih =>
      obtain ⟨g, before, moved⟩ := (Machine.exec_snoc _).mp run
      obtain ⟨follow, m, rated⟩ := ih ticking.before before
      have snoc : readingsOf config alloy exporter http s (past ++ [input]) =
          readingsOf config alloy exporter http s past ++ (input.records g).toList :=
        Machine.outputs_snoc _ _ before
      rw [snoc]
      have follow' := records_clock follow g input
      exact ⟨follow', hosted_step_rated rated (ticking.run.sublist follow') ticking moved⟩

/-- In every state of a hosted run the rates are those of the minute before the last prune, and
the totals count what was recorded and what still waits for the lock. -/
theorem rates_follow_run {storage : Except String σ} (enabled : config.metricsEnabled = true)
    (start : launch config storage (.ok FrontfillMetrics.register) = .ok s)
    (ticking : Ticking began inputs)
    (run : Machine.exec (hostedStep config alloy exporter http)
      { run := s, runtime := .started http } inputs = some h) :
    ∃ m readings, readings = readingsOf config alloy exporter http s inputs ∧ h.run.metrics = some m ∧
      m.logsPerMinute = (readings.logs.filter
        (fun time => lastPrune began inputs - sixtySeconds ≤ time)).length ∧
      (∀ eventType, m.logsPerMinuteByType.lookup eventType =
        if readings.ofType eventType = [] then none
        else some ((readings.ofType eventType).filter
          (fun time => lastPrune began inputs - sixtySeconds ≤ time)).length) ∧
      m.logsTotal = (readings.map Prod.fst ++ h.run.waiting.toList).countP Observation.isLog ∧
      (∀ eventType, (m.logsByTypeTotal.lookup eventType).getD 0 =
        (readings.map Prod.fst ++ h.run.waiting.toList).countP
          (Observation.isType eventType)) := by
  obtain ⟨m, metrics, exact_, logs, types⟩ := hosted_rated enabled start ticking run
  refine ⟨m, _, rfl, metrics, ?_, fun eventType => ?_, logs, types⟩
  · rw [exact_.perMinute, exact_.total]
    rfl
  · rw [exact_.perMinuteByType, exact_.byType, queueOf]
    split <;> rfl

end Run

section Example

/-- The updater has the lock while a log waits for it, and again a minute after its type. -/
def published : List (HostedInput ParquetIo OneByOneEvent) :=
  [.run (.next (some (cancelled 10 0))), .run (.observe 7), .updater .tick, .updater .lock,
    .updater (.publish 10), .run (.record 5 12), .run .lock, .run (.observe 7),
    .run (.record 13 14), .run (.sink sinkOk), .updater .tick, .updater .lock,
    .updater (.publish 60000000013)]

theorem published_readings :
    readingsOf measuredConfig Reference.alloy plainText oneByOne measuredStart
      (connecting.map .run ++ published) =
      [(.log 10 7, 5), (.decodedType "OrderCancelled", 13)] := by
  have connects := hosted_connecting []
  rw [List.append_nil] at connects
  have silent : ∀ i ∈ (connecting.map .run : List (HostedInput ParquetIo OneByOneEvent)),
      ∀ s : Hosted ParquetSink ParquetIo OneByOne, i.records s = none := by
    intro i member s
    simp only [connecting, List.map_cons, List.map_nil, List.mem_cons, List.not_mem_nil,
      or_false] at member
    rcases member with rfl | rfl | rfl <;> rfl
  rw [readingsOf, Machine.outputs_append _ _ connects, Machine.outputs_silent _ _ silent]
  rfl

/-- The log is a minute old and its type is not. -/
theorem rates_follow_run_published : ∃ h m, hosted (connecting.map .run ++ published) = some h ∧
    h.run.metrics = some m ∧ m.logsPerMinute = 0 ∧
    m.logsPerMinuteByType.lookup "OrderCancelled" = some 1 := by
  have reached : (hosted (connecting.map .run ++ published)).isSome := by
    rw [hosted_connecting]
    rfl
  obtain ⟨h, run⟩ := Option.isSome_iff_exists.mp reached
  have ticking : Ticking 0 (connecting.map .run ++ published) := ⟨by decide, by decide⟩
  obtain ⟨m, readings, read, metrics, perMinute, byType, -⟩ :=
    rates_follow_run rfl measuredStart_launched ticking run
  rw [published_readings] at read
  subst read
  exact ⟨h, m, run, metrics, perMinute, byType "OrderCancelled"⟩

end Example

end Frontfill

end PolymarketIndexer
