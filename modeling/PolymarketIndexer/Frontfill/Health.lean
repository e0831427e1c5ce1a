import PolymarketIndexer.Frontfill.Counters

/-! # Health and readiness

The handlers answer from two gauges that the run sets: whether it is connected, and when it
last observed a log. The first is set exactly while the run is in its inner loop; the second
outlives a connection.
-/

namespace PolymarketIndexer

structure HealthState where
  wsConnected : Bool
  lastLogUnixSeconds : UInt64
  maxStalenessSeconds : UInt64

def FrontfillMetrics.health (metrics : FrontfillMetrics) : HealthState where
  wsConnected := metrics.wsConnected
  lastLogUnixSeconds := metrics.lastLogUnixSeconds
  maxStalenessSeconds := 120

def isHealthy (health : HealthState) (now : UInt64) : Bool :=
  if !health.wsConnected then false
  else if health.lastLogUnixSeconds = 0 then false
  else U64.saturatingSub now health.lastLogUnixSeconds ≤ health.maxStalenessSeconds

/-- Status code and body. -/
def healthHandler (health : HealthState) (now : UInt64) : Nat × String :=
  if isHealthy health now then (200, "ok") else (503, "unhealthy")

def readyHandler (health : HealthState) (now : UInt64) : Nat × String :=
  if isHealthy health now then (200, "ready") else (503, "not ready")

theorem isHealthy_iff {health : HealthState} {now : UInt64} :
    isHealthy health now = true ↔ health.wsConnected = true ∧ 0 < health.lastLogUnixSeconds.toNat ∧
      now.toNat ≤ health.lastLogUnixSeconds.toNat + health.maxStalenessSeconds.toNat := by
  have zero : health.lastLogUnixSeconds = 0 ↔ health.lastLogUnixSeconds.toNat = 0 := by
    rw [← UInt64.toNat_inj]
    rfl
  unfold isHealthy
  cases connected : health.wsConnected with
  | false => simp
  | true =>
      by_cases never : health.lastLogUnixSeconds = 0
      · have none_ := zero.mp never
        simp [never]
      · have some_ : 0 < health.lastLogUnixSeconds.toNat :=
          Nat.pos_of_ne_zero (fun none_ => never (zero.mpr none_))
        simp only [Bool.not_true, Bool.false_eq_true, if_false, never, decide_eq_true_eq,
          UInt64.le_iff_toNat_le, U64.saturatingSub_toNat, true_and]
        omega

theorem handlers_ok (health : HealthState) (now : UInt64) :
    ((healthHandler health now).1 = 200 ↔ isHealthy health now = true) ∧
      ((readyHandler health now).1 = 200 ↔ isHealthy health now = true) := by
  unfold healthHandler readyHandler
  cases isHealthy health now <;> simp

namespace Frontfill

/-- The stages of the inner loop. -/
def Stage.inner : Stage → Bool
  | .loop | .uncounted | .typed => true
  | _ => false

/-- The last connection of a run still streams. -/
def Streams {ω : Type} (inputs : List (Input ω)) : Prop :=
  ∃ before after, inputs = before ++ .subscribed (.ok ()) :: after ∧ .next none ∉ after

/-- The last reading of the wall clock, 0 before the first. -/
def lastReading (observed : List (Log × UInt64)) : UInt64 :=
  ((observed.getLast?).map Prod.snd).getD 0

section Watch

variable {σ ω : Type} {alloy : Alloy} {s t : State σ ω} {a b : Ledger} {input : Input ω}
  {past : List (Input ω)} {observed : List (Log × UInt64)}

/-- What the two gauges say of a run, from its inputs and the readings it took. -/
structure Watch (past : List (Input ω)) (observed : List (Log × UInt64)) (s : State σ ω)
    (a : Ledger) : Prop where
  inner : s.phase.stage.inner = true → a.connected = true ∧ Streams past
  outside : s.phase.stage = .outside → a.connected = false
  exiting : ∀ result, s.phase = .exiting result → a.connected = false
  last : s.phase.stage ≠ .gone → a.lastLog = lastReading observed

theorem Streams.snoc (streams : Streams past) (streaming : input ≠ .next none) :
    Streams (past ++ [input]) := by
  obtain ⟨before, after, rfl, open_⟩ := streams
  refine ⟨before, after ++ [input], by simp, fun ended => ?_⟩
  rcases List.mem_append.mp ended with early | late
  · exact open_ early
  · exact streaming (List.mem_singleton.mp late).symm

theorem observation_loop (loop : s.phase.stage = .loop) (input : Input ω) :
    observation s input = none := by
  cases input with
  | observe unixSeconds =>
      rw [observation]
      split
      · rename_i taken observing
        cases (congrArg Phase.stage observing).symm.trans loop
      · rfl
  | _ => rfl

theorem Watch.unseen (watch : Watch past observed s a) (running : s.phase.stage ≠ .gone)
    (unseen : observation s input = none) :
    a.lastLog = lastReading (observed ++ (observation s input).toList) := by
  rw [unseen, Option.toList_none, List.append_nil]
  exact watch.last running

theorem not_gone {stage : Stage} (at_ : s.phase.stage = stage) (running : stage ≠ .gone) :
    s.phase.stage ≠ .gone := at_ ▸ running

section After

variable {past' : List (Input ω)} {observed' : List (Log × UInt64)}

/-- In the inner loop. -/
theorem Watch.into (now : t.phase.stage.inner = true) (connected : b.connected = true)
    (streams : Streams past') (last : b.lastLog = lastReading observed') :
    Watch past' observed' t b := by
  refine ⟨fun _ => ⟨connected, streams⟩, fun outside => ?_, fun result exiting => ?_, fun _ => last⟩
  · rw [outside] at now
    cases now
  · rw [exiting] at now
    cases now

/-- In the outer loop. -/
theorem Watch.away (now : t.phase.stage = .outside) (disconnected : b.connected = false)
    (last : b.lastLog = lastReading observed') : Watch past' observed' t b := by
  refine ⟨fun inner => ?_, fun _ => disconnected, fun result exiting => ?_, fun _ => last⟩
  · rw [now] at inner
    cases inner
  · cases (congrArg Phase.stage exiting).symm.trans now

/-- Past the loops. -/
theorem Watch.gone (now : t.phase.stage = .gone)
    (exiting : ∀ result, t.phase = .exiting result → b.connected = false) :
    Watch past' observed' t b := by
  refine ⟨fun inner => ?_, fun outside => ?_, exiting, fun running => absurd now running⟩
  · rw [now] at inner
    cases inner
  · cases now.symm.trans outside

end After

/-- A step within the inner loop that observes no log. -/
theorem Watch.inside (watch : Watch past observed s a) (was : s.phase.stage.inner = true)
    (now : t.phase.stage.inner = true) (streaming : input ≠ .next none)
    (unseen : observation s input = none) (connected : b.connected = a.connected)
    (lastLog : b.lastLog = a.lastLog) :
    Watch (past ++ [input]) (observed ++ (observation s input).toList) t b := by
  obtain ⟨before, streams⟩ := watch.inner was
  have running : s.phase.stage ≠ .gone := fun gone => by
    rw [gone] at was
    cases was
  exact .into now (connected.trans before) (streams.snoc streaming)
    (lastLog.trans (watch.unseen running unseen))

theorem meters_watch (watch : Watch past observed s a)
    (alive : ∀ result, s.phase ≠ .returned result) (meters : Meters alloy s a input t b) :
    Watch (past ++ [input]) (observed ++ (observation s input).toList) t b := by
  cases meters with
  | steady stage result trace streaming unseen =>
      cases was : s.phase.stage with
      | outside =>
          exact .away (stage.trans was) (watch.outside was)
            (watch.unseen (not_gone was nofun) unseen)
      | loop =>
          exact watch.inside (by rw [was]; rfl) (by rw [stage, was]; rfl) streaming unseen rfl rfl
      | uncounted =>
          exact watch.inside (by rw [was]; rfl) (by rw [stage, was]; rfl) streaming unseen rfl rfl
      | typed =>
          exact watch.inside (by rw [was]; rfl) (by rw [stage, was]; rfl) streaming unseen rfl rfl
      | gone =>
          refine .gone (stage.trans was) (fun _ _ => ?_)
          cases phase : s.phase with
          | exiting result => exact watch.exiting result phase
          | returned result => exact absurd phase (alive result)
          | _ =>
              rw [phase] at was
              cases was
  | subscribed outside loop trace =>
      exact .into (by rw [loop]; rfl) rfl ⟨past, [], rfl, List.not_mem_nil⟩
        (watch.unseen (not_gone outside nofun) rfl)
  | ended loop outside trace =>
      exact .away outside rfl (watch.unseen (not_gone loop nofun) rfl)
  | took loop checked observing trace =>
      exact watch.inside (by rw [loop]; rfl) (by rw [observing]; rfl) nofun rfl rfl rfl
  | @counted _ taken unixSeconds observing loop trace =>
      have was : s.phase.stage.inner = true := by rw [observing]; rfl
      obtain ⟨connected, streams⟩ := watch.inner was
      have seen : observation s (.observe unixSeconds) = some (taken.log, unixSeconds) := by
        rw [observation, observing]
      refine .into (by rw [loop]; rfl) connected (streams.snoc nofun) ?_
      rw [seen, lastReading, Option.toList_some, List.getLast?_concat]
      rfl
  | countedType loop typed trace =>
      exact watch.inside (by rw [loop]; rfl) (by rw [typed]; rfl) nofun (observation_loop loop _)
        rfl rfl
  | rotated loop still trace =>
      exact watch.inside (by rw [loop]; rfl) (by rw [still]; rfl) nofun rfl rfl rfl
  | wrote typed loop trace =>
      exact watch.inside (by rw [typed]; rfl) (by rw [loop]; rfl) nofun rfl rfl rfl
  | missing loop checked exiting => exact .gone (congrArg Phase.stage exiting) (fun _ _ => rfl)
  | undecodable loop exiting => exact .gone (congrArg Phase.stage exiting) (fun _ _ => rfl)
  | writeFailed typed exiting => exact .gone (congrArg Phase.stage exiting) (fun _ _ => rfl)
  | closed loop exiting => exact .gone (congrArg Phase.stage exiting) (fun _ _ => rfl)
  | left within returned =>
      exact .gone (congrArg Phase.stage returned) (fun _ exiting => nomatch returned.symm.trans exiting)

theorem Watch.connected_inner (watch : Watch past observed s a)
    (alive : ∀ result, s.phase ≠ .returned result) (connected : a.connected = true) :
    s.phase.stage.inner = true := by
  cases stage : s.phase.stage with
  | outside => cases (watch.outside stage).symm.trans connected
  | gone =>
      cases phase : s.phase with
      | exiting result => cases (watch.exiting result phase).symm.trans connected
      | returned result => exact absurd phase (alive result)
      | _ =>
          rw [phase] at stage
          cases stage
  | _ => rfl

theorem observation_complete {input : Input ω} {entry : Log × UInt64} (ingested : Ingested alloy s)
    (seen : observation s input = some entry) : HasMetadata entry.1 := by
  cases input with
  | observe unixSeconds =>
      rw [observation] at seen
      split at seen
      · rename_i taken observing
        obtain rfl := Option.some.inj seen
        obtain ⟨-, log, -, -, checked, -⟩ := ingested.busy taken none (by rw [observing]; rfl)
        obtain ⟨hash, block, txHash, index, same, -⟩ := checkMetadata_iff.mp checked
        simp only [HasMetadata, same, block, txHash, index, Option.isSome_some, and_self]
      · cases seen
  | _ => cases seen

end Watch

section Run

variable {σ ω : Type} [EventSink σ ω] {config : FrontfillConfig} {alloy : Alloy}
  {s t : State σ ω}

theorem step_alive {input : Input ω} (moved : step config alloy s input = some t)
    (result : Except String Unit) : s.phase ≠ .returned result := by
  intro returned
  cases input <;>
    simp [step, reconnectStep, selectStep, processStep, sinkStep, signalStep, returned] at moved

/-- The logs a run observed, with the reading of the wall clock for each. -/
def observedLogs (config : FrontfillConfig) (alloy : Alloy) (s : State σ ω)
    (inputs : List (Input ω)) : List (Log × UInt64) :=
  Machine.outputs (step config alloy) observation s inputs

theorem run_watch {storage : Except String σ} {inputs : List (Input ω)}
    (enabled : config.metricsEnabled = true)
    (start : launch config storage (.ok FrontfillMetrics.register) = .ok s)
    (run : Machine.exec (step config alloy) s inputs = some t) :
    (∃ m, t.metrics = some m ∧
      Watch inputs (observedLogs config alloy s inputs) t m.ledger) ∧
    ∀ entry ∈ observedLogs config alloy s inputs, HasMetadata entry.1 := by
  obtain ⟨-, -, phase, -⟩ := launch_start start
  have first : Watch [] [] s FrontfillMetrics.register.ledger := by
    refine ⟨?_, fun _ => rfl, fun _ _ => rfl, fun _ => rfl⟩
    rw [phase]
    nofun
  have keeps : ∀ (past : List (Input ω)) (a : State σ ω) (input : Input ω) (b : State σ ω),
      (Machine.exec (step config alloy) s past = some a ∧
        (∃ m, a.metrics = some m ∧
          Watch past (observedLogs config alloy s past) a m.ledger) ∧
        ∀ entry ∈ observedLogs config alloy s past, HasMetadata entry.1) →
      step config alloy a input = some b →
      Machine.exec (step config alloy) s (past ++ [input]) = some b ∧
        (∃ m, b.metrics = some m ∧
          Watch (past ++ [input]) (observedLogs config alloy s (past ++ [input])) b m.ledger) ∧
        ∀ entry ∈ observedLogs config alloy s (past ++ [input]), HasMetadata entry.1 := by
    rintro past a input b ⟨reached, ⟨m, metrics, watch⟩, complete⟩ moved
    have grows : observedLogs config alloy s (past ++ [input]) =
        observedLogs config alloy s past ++ (observation a input).toList :=
      Machine.outputs_snoc _ _ reached
    obtain ⟨m', metrics', meters⟩ := step_meters metrics moved
    rw [grows]
    refine ⟨(Machine.exec_snoc _).mpr ⟨a, reached, moved⟩,
      ⟨m', metrics', meters_watch watch (step_alive moved) meters⟩, ?_⟩
    intro entry member
    rcases List.mem_append.mp member with old | new
    · exact complete entry old
    · exact observation_complete (run_ingested start reached) (Option.mem_toList.mp new)
  exact (Machine.exec_history _ keeps run ⟨rfl, ⟨_, launch_metrics enabled start, first⟩, by
    intro entry member
    cases member⟩).2

/-- A wall clock past the epoch that does not go back. -/
structure ClockOrdered (observed : List (Log × UInt64)) : Prop where
  ordered : (observed.map Prod.snd).Pairwise (· ≤ ·)
  epoch : ∀ entry ∈ observed, 0 < entry.2

/-- The last reading is recent if any is. -/
theorem recent_iff {observed : List (Log × UInt64)} {now : UInt64}
    (clock : ClockOrdered observed) :
    (0 < (lastReading observed).toNat ∧ now.toNat ≤ (lastReading observed).toNat + 120) ↔
      ∃ entry ∈ observed, now.toNat ≤ entry.2.toNat + 120 := by
  rcases observed.eq_nil_or_concat' with rfl | ⟨earlier, latest, rfl⟩
  · simp [lastReading]
  · have last : lastReading (earlier ++ [latest]) = latest.2 := by
      rw [lastReading, List.getLast?_concat]
      rfl
    have inside : latest ∈ earlier ++ [latest] := List.mem_append_right _ List.mem_cons_self
    rw [last]
    constructor
    · rintro ⟨-, recent⟩
      exact ⟨latest, inside, recent⟩
    · rintro ⟨entry, member, recent⟩
      refine ⟨UInt64.lt_iff_toNat_lt.mp (clock.epoch latest inside), ?_⟩
      rcases List.mem_append.mp member with old | new
      · have ordered := clock.ordered
        rw [List.map_append] at ordered
        have le := (List.pairwise_append.mp ordered).2.2 entry.2
          (List.mem_map_of_mem old) latest.2 (List.mem_map_of_mem List.mem_cons_self)
        have le := UInt64.le_iff_toNat_le.mp le
        omega
      · obtain rfl := List.mem_singleton.mp new
        exact recent

/-- As long as the run has not returned it answers healthy exactly while it is in the inner
loop of a subscription and a log was observed in the last two minutes. -/
theorem health_truthful {storage : Except String σ} {inputs : List (Input ω)} (now : UInt64)
    (enabled : config.metricsEnabled = true)
    (start : launch config storage (.ok FrontfillMetrics.register) = .ok s)
    (run : Machine.exec (step config alloy) s inputs = some t)
    (alive : ∀ result, t.phase ≠ .returned result)
    (clock : ClockOrdered (observedLogs config alloy s inputs)) :
    ∃ m, t.metrics = some m ∧
      (isHealthy m.health now = true ↔ t.phase.stage.inner = true ∧
        ∃ entry ∈ observedLogs config alloy s inputs,
          HasMetadata entry.1 ∧ now.toNat ≤ entry.2.toNat + 120) ∧
      (t.phase.stage.inner = true → Streams inputs) ∧
      (t.phase.stage = .outside → isHealthy m.health now = false) ∧
      ((healthHandler m.health now).1 = 200 ↔ isHealthy m.health now = true) ∧
      ((readyHandler m.health now).1 = 200 ↔ isHealthy m.health now = true) := by
  obtain ⟨⟨m, metrics, watch⟩, complete⟩ := run_watch enabled start run
  have last : t.phase.stage.inner = true →
      m.health.lastLogUnixSeconds = lastReading (observedLogs config alloy s inputs) := by
    intro inner
    apply watch.last
    intro gone
    rw [gone] at inner
    cases inner
  have healthy : isHealthy m.health now = true ↔ t.phase.stage.inner = true ∧
      ∃ entry ∈ observedLogs config alloy s inputs,
        HasMetadata entry.1 ∧ now.toNat ≤ entry.2.toNat + 120 := by
    rw [isHealthy_iff]
    constructor
    · rintro ⟨connected, some_, recent⟩
      have inner := watch.connected_inner alive connected
      rw [last inner] at some_ recent
      obtain ⟨entry, member, recent⟩ := (recent_iff clock).mp ⟨some_, recent⟩
      exact ⟨inner, entry, member, complete entry member, recent⟩
    · rintro ⟨inner, entry, member, -, recent⟩
      obtain ⟨some_, recent⟩ := (recent_iff clock).mpr ⟨entry, member, recent⟩
      rw [← last inner] at some_ recent
      exact ⟨(watch.inner inner).1, some_, recent⟩
  refine ⟨m, metrics, healthy, fun inner => (watch.inner inner).2, fun outside => ?_,
    handlers_ok m.health now⟩
  cases answer : isHealthy m.health now with
  | false => rfl
  | true =>
      have inner := (healthy.mp answer).1
      rw [outside] at inner
      cases inner

end Run

section Example

theorem observed_measured :
    observedLogs measuredConfig Reference.alloy measuredStart
      (connecting ++ measuring (cancelled 10 0) 7) = [(cancelled 10 0, 7)] := by
  have connected : Machine.exec (step measuredConfig Reference.alloy) measuredStart connecting =
      some measuredListening := measured_connecting []
  have silent : ∀ input ∈ connecting, ∀ s : LiveState, observation s input = none := by
    simp [connecting, observation]
  rw [observedLogs, Machine.outputs_append _ _ connected, Machine.outputs_silent _ _ silent]
  rfl

/-- A log is observed at 7, and the run waits for the next one. -/
theorem health_truthful_measured : ∃ t m,
    Machine.exec (step measuredConfig Reference.alloy) measuredStart
      (connecting ++ measuring (cancelled 10 0) 7) = some t ∧
    t.metrics = some m ∧ isHealthy m.health 127 = true ∧ isHealthy m.health 128 = false := by
  have returns : (Machine.exec (step measuredConfig Reference.alloy) measuredStart
      (connecting ++ measuring (cancelled 10 0) 7)).isSome := by
    rw [measured_connecting]
    rfl
  obtain ⟨t, run⟩ := Option.isSome_iff_exists.mp returns
  have heard := run
  rw [measured_connecting] at heard
  have phase : t.phase = .selecting none := seen State.phase heard rfl
  have alive : ∀ result, t.phase ≠ .returned result := by
    rw [phase]
    nofun
  have clock : ClockOrdered (observedLogs measuredConfig Reference.alloy measuredStart
      (connecting ++ measuring (cancelled 10 0) 7)) := by
    rw [observed_measured]
    exact ⟨List.pairwise_singleton _ _, by decide⟩
  obtain ⟨m, metrics, fresh, -⟩ := health_truthful 127 rfl measuredStart_launched run alive clock
  obtain ⟨m', metrics', stale, -⟩ := health_truthful 128 rfl measuredStart_launched run alive clock
  obtain rfl := Option.some.inj (metrics.symm.trans metrics')
  rw [observed_measured, phase] at fresh stale
  refine ⟨t, m, run, metrics, fresh.mpr ⟨rfl, _, List.mem_cons_self, ⟨rfl, rfl, rfl⟩, by decide⟩, ?_⟩
  cases answer : isHealthy m.health 128 with
  | false => rfl
  | true =>
      obtain ⟨-, entry, member, -, recent⟩ := stale.mp answer
      obtain rfl := List.mem_singleton.mp member
      exact absurd recent (by decide)

end Example

end Frontfill

end PolymarketIndexer
