import PolymarketIndexer.Frontfill.Reconnect
import PolymarketIndexer.Library.Completion

/-! # The run does what it is asked and can be stopped

Between two things that come from outside the run takes a few steps of its own: at most seven for a
log it received, two of them calls of the sink, whatever the sink answers. From every state a single
Ctrl-C can bring it to its return.
-/

namespace PolymarketIndexer.Frontfill

open Machine

section Work

variable {σ ω : Type}

/-- A step of the run's own. The sink answers, the rest is up to the run. -/
def Input.own : Input ω → Bool
  | .observe _ | .record _ _ | .lock | .sink _ | .metricsStopped => true
  | _ => false

def Input.callsSink : Input ω → Bool
  | .sink _ => true
  | _ => false

def Input.takesLog : Input ω → Bool
  | .next (some _) => true
  | _ => false

/-- The steps of its own the run may still take until it waits for a log again, and then until it
has returned. -/
def Phase.rank : Phase → Nat
  | .returned _ => 0
  | .exiting _ => 1
  | .writing _ _ => 3
  | .recordingType _ _ => 4
  | .observingType _ _ => 5
  | .rotating _ => 6
  | .locking _ => 7
  | .recording _ => 8
  | .observing _ => 9
  | _ => 2

/-- The calls of the sink among them. -/
def Phase.callsLeft : Phase → Nat
  | .returned _ | .exiting _ => 0
  | .writing _ _ | .recordingType _ _ | .observingType _ _ => 2
  | .rotating _ | .locking _ | .recording _ | .observing _ => 3
  | _ => 1

attribute [local simp] Input.own Input.callsSink Input.takesLog Phase.rank Phase.callsLeft
  State.backOff

section Parts

variable {alloy : Alloy} (s : State σ ω)

theorem fail_costs (count : FrontfillMetrics → FrontfillMetrics) (error : String) :
    (s.fail count error).phase.rank ≤ 1 ∧ (s.fail count error).phase.callsLeft = 0 := by
  unfold State.fail
  cases s.metrics <;> simp

theorem decode_costs (taken : Taken) :
    (s.decode alloy taken).phase.rank ≤ 5 ∧ (s.decode alloy taken).phase.callsLeft ≤ 2 := by
  unfold State.decode
  rcases decodeLog alloy taken.log with error | _ | decoded
  · obtain ⟨rank, calls⟩ := fail_costs s countDecodeError error
    simp only
    omega
  · exact ⟨by simp, by simp⟩
  · cases s.metrics <;> simp

theorem take_costs (log : Log) :
    (s.take alloy log).phase.rank ≤ 9 ∧ (s.take alloy log).phase.callsLeft ≤ 3 := by
  unfold State.take
  rcases checkMetadata alloy log with error | taken
  · obtain ⟨rank, calls⟩ := fail_costs (s.note (.received log)) countMissingMetadata error
    simp only
    omega
  · cases s.metrics <;> simp

end Parts

/-- What a step takes away from what is left to do, and what a log adds. -/
structure Costs (s t : State σ ω) (input : Input ω) : Prop where
  own : (if input.own then 1 else 0) + t.phase.rank ≤
    s.phase.rank + if input.takesLog then 7 else 0
  calls : (if input.callsSink then 1 else 0) + t.phase.callsLeft ≤
    s.phase.callsLeft + if input.takesLog then 2 else 0

/-- The cost of a step between two phases that are known. -/
theorem Costs.between {s t : State σ ω} {input : Input ω} {before after : Phase}
    (was : s.phase = before) (is : t.phase = after)
    (own : (if input.own then 1 else 0) + after.rank ≤
      before.rank + if input.takesLog then 7 else 0)
    (calls : (if input.callsSink then 1 else 0) + after.callsLeft ≤
      before.callsLeft + if input.takesLog then 2 else 0) : Costs s t input := by
  subst was is
  exact ⟨own, calls⟩

variable {config : FrontfillConfig} {alloy : Alloy} {s t : State σ ω} {input : Input ω}

/-- The cost of a step that decides about the log in hand. -/
theorem Costs.decided {u : State σ ω} {before : Phase} {taken : Taken} (was : s.phase = before)
    (own : (if input.own then 1 else 0) + 5 ≤ before.rank)
    (calls : (if input.callsSink then 1 else 0) + 2 ≤ before.callsLeft) :
    Costs s (u.decode alloy taken) input := by
  obtain ⟨rank, left⟩ := @decode_costs _ _ alloy u taken
  refine .between was rfl ?_ ?_
  · omega
  · omega

theorem reconnect_costs (moved : reconnectStep config alloy s input = some t) :
    Costs s t input := by
  cases input with
  | connect =>
      simp only [reconnectStep] at moved
      split at moved
      · rename_i starting failed
        cases moved
        exact .between starting rfl (by simp) (by simp)
      · rename_i starting built
        cases moved
        exact .between starting rfl (by simp) (by simp)
      · cases moved
  | connected result =>
      simp only [reconnectStep] at moved
      split at moved
      · rename_i connecting
        cases moved
        exact .between connecting rfl (by simp) (by simp)
      · rename_i connecting failed
        cases moved
        exact .between connecting rfl (by simp) (by simp)
      · rename_i connecting built
        cases moved
        exact .between connecting rfl (by simp) (by simp)
      · cases moved
  | subscribed result =>
      simp only [reconnectStep] at moved
      split at moved
      · rename_i subscribing
        cases moved
        exact .between subscribing rfl (by simp) (by simp)
      · rename_i subscribing
        cases moved
        exact .between subscribing rfl (by simp) (by simp)
      · cases moved
  | slept =>
      simp only [reconnectStep] at moved
      split at moved
      · rename_i backoff
        cases moved
        exact .between backoff rfl (by simp) (by simp)
      · cases moved
  | _ => cases moved

theorem select_costs (moved : selectStep alloy s input = some t) : Costs s t input := by
  cases input with
  | pollCtrlC result =>
      simp only [selectStep] at moved
      split at moved
      · rename_i selecting
        cases moved
        exact .between selecting rfl (by simp) (by simp)
      · rename_i selecting
        cases moved
        exact .between selecting rfl (by simp) (by simp)
      · cases moved
  | next log? =>
      simp only [selectStep] at moved
      split at moved
      · rename_i log selecting
        cases moved
        obtain ⟨rank, calls⟩ := @take_costs _ _ alloy s log
        exact .between selecting rfl
          (by simpa using rank) (by simpa using calls)
      · rename_i selecting
        cases moved
        exact .between selecting rfl (by simp) (by simp)
      · cases moved
  | shutdown =>
      simp only [selectStep] at moved
      split at moved
      · rename_i selecting
        cases moved
        exact .between selecting rfl (by simp) (by simp)
      · cases moved
  | _ => cases moved

theorem signal_costs (moved : signalStep s = some t) : Costs s t .signal := by
  unfold signalStep at moved
  split at moved
  · cases moved
  · rename_i selecting
    split at moved
    · cases moved
      exact .between selecting rfl (by simp) (by simp)
    · cases moved
  · split at moved
    · cases moved
      exact .between rfl rfl (by simp [Input.own]) (by simp [Input.callsSink])
    · cases moved

variable [EventSink σ ω]

theorem sink_costs {io : ω} (moved : sinkStep config alloy s io = some t) :
    Costs s t (.sink io) := by
  unfold sinkStep at moved
  split at moved
  · rename_i taken rotating
    split at moved
    · cases moved
      exact .between rotating rfl (by simp) (by simp)
    · cases moved
      exact .decided rotating (by simp) (by simp)
  · rename_i taken decoded writing
    split at moved
    · rename_i error sink failed
      cases moved
      obtain ⟨rank, calls⟩ := fail_costs (State.measure
        ({ s with sink := sink }.note (.sinkFailed error)) observeDuration) countWriteError error
      refine .between writing rfl ?_ ?_
      · simp only [Input.own, Input.takesLog, if_true]
        exact (Nat.add_le_add_left rank 1).trans (by simp)
      · simp only [Input.callsSink, Input.takesLog, if_true, calls]
        simp
    · cases moved
      exact .between writing rfl (by simp) (by simp)
  · rename_i closing
    split at moved
    · cases moved
      exact .between closing rfl (by simp) (by simp)
    · cases moved
      cases s.metrics <;>
        exact .between closing rfl (by simp) (by simp)
  · cases moved

theorem process_costs (moved : processStep config alloy s input = some t) : Costs s t input := by
  cases input with
  | observe unixSeconds =>
      simp only [processStep] at moved
      split at moved
      · rename_i observing
        cases moved
        exact .between observing rfl (by simp) (by simp)
      · rename_i observing
        cases moved
        exact .between observing rfl (by simp) (by simp)
      · cases moved
  | record seen now =>
      simp only [processStep] at moved
      split at moved
      · rename_i recording
        cases moved
        exact .between recording rfl (by simp) (by simp)
      · rename_i recording
        cases moved
        exact .between recording rfl (by simp) (by simp)
      · cases moved
  | lock =>
      simp only [processStep] at moved
      split at moved
      · rename_i locking due
        split at moved
        · cases moved
          exact .between locking rfl (by simp) (by simp)
        · cases moved
          exact .decided locking (by simp) (by simp)
      · rename_i locking due
        cases moved
        exact .decided locking (by simp) (by simp)
      · cases moved
  | sink io => exact sink_costs moved
  | metricsStopped =>
      simp only [processStep] at moved
      split at moved
      · rename_i exiting
        cases moved
        exact .between exiting rfl (by simp) (by simp)
      · cases moved
  | _ => cases moved

theorem step_costs (moved : step config alloy s input = some t) : Costs s t input := by
  cases input with
  | connect | connected | subscribed | slept => exact @reconnect_costs _ _ config alloy _ _ _ moved
  | pollCtrlC | next | shutdown => exact @select_costs _ _ alloy _ _ _ moved
  | observe | record | lock | sink | metricsStopped =>
      exact @process_costs _ _ config alloy _ _ _ _ moved
  | signal => exact signal_costs moved

theorem received_count {inputs : List (Input ω)}
    (run : exec (step config alloy) s inputs = some t) :
    t.received.length = s.received.length + inputs.countP Input.takesLog := by
  have keeps : ∀ (past : List (Input ω)) (a : State σ ω) (input : Input ω) (b : State σ ω),
      a.received.length = s.received.length + past.countP Input.takesLog →
      step config alloy a input = some b →
      b.received.length = s.received.length + (past ++ [input]).countP Input.takesLog := by
    intro past a input b before moved
    rw [List.countP_append, ← Nat.add_assoc, ← before]
    by_cases takes : ∃ log, input = .next (some log)
    · obtain ⟨log, rfl⟩ := takes
      rw [received_next moved]
      simp
    · rw [received_other (fun log same => takes ⟨log, same⟩) moved]
      cases input with
      | next log? =>
          cases log? with
          | none => simp
          | some log => exact absurd ⟨log, rfl⟩ takes
      | _ => simp
  exact exec_history _ keeps run (by simp)

end Work

section Stop

variable {σ ω : Type}

/-- What brings the run nearer to its return: it is let go on, its next connection succeeds and the
listener of its next turn hears a Ctrl-C. -/
def Phase.stopInput (io : ω) : Phase → Input ω
  | .starting => .connect
  | .connecting _ => .connected (.ok ())
  | .subscribing _ => .subscribed (.ok ())
  | .backoff _ => .slept
  | .selecting none => .pollCtrlC (.ok ())
  | .selecting (some false) => .signal
  | .selecting (some true) => .shutdown
  | .observing _ | .observingType _ _ => .observe 0
  | .recording _ | .recordingType _ _ => .record 0 0
  | .locking _ => .lock
  | .rotating _ | .writing _ _ | .closing => .sink io
  | .exiting _ | .returned _ => .metricsStopped

/-- How many such inputs are needed. -/
def Phase.stopRank : Phase → Nat
  | .returned _ => 0
  | .exiting _ => 1
  | .closing => 2
  | .selecting (some true) => 3
  | .selecting (some false) => 4
  | .selecting none => 5
  | .subscribing _ | .writing _ _ => 6
  | .connecting _ | .recordingType _ _ => 7
  | .starting | .observingType _ _ => 8
  | .backoff _ | .rotating _ => 9
  | .locking _ => 10
  | .recording _ => 11
  | .observing _ => 12

def Phase.hasReturned : Phase → Prop
  | .returned _ => True
  | _ => False

/-- A turn whose listener was polled has the handler installed. -/
def Listening (s : State σ ω) : Prop :=
  ∀ pending, s.phase = .selecting (some pending) → s.handlerInstalled = true

section Parts

variable {alloy : Alloy} (s : State σ ω)

theorem fail_stops (count : FrontfillMetrics → FrontfillMetrics) (error : String) :
    (s.fail count error).phase.stopRank ≤ 1 ∧ Listening (s.fail count error) := by
  unfold State.fail
  cases s.metrics <;> exact ⟨by simp [Phase.stopRank], by simp [Listening]⟩

theorem decode_stops (taken : Taken) :
    (s.decode alloy taken).phase.stopRank ≤ 8 ∧ Listening (s.decode alloy taken) := by
  unfold State.decode
  rcases decodeLog alloy taken.log with error | _ | decoded
  · obtain ⟨rank, listening⟩ := fail_stops s countDecodeError error
    exact ⟨rank.trans (by decide), listening⟩
  · exact ⟨by simp [Phase.stopRank], by simp [Listening]⟩
  · cases s.metrics <;> exact ⟨by simp [Phase.stopRank], by simp [Listening]⟩

theorem take_listens (log : Log) : Listening (s.take alloy log) := by
  unfold State.take
  cases checkMetadata alloy log with
  | error error => exact (fail_stops _ _ _).2
  | ok taken => cases s.metrics <;> simp [Listening]

end Parts

variable [EventSink σ ω] {config : FrontfillConfig} {alloy : Alloy} {s t : State σ ω}

theorem sink_listens {io : ω} (moved : sinkStep config alloy s io = some t) : Listening t := by
  unfold sinkStep at moved
  split at moved
  · split at moved
    · cases moved
      exact fun _ selecting => by cases selecting
    · cases moved
      exact (decode_stops _ _).2
  · split at moved
    · cases moved
      exact (fail_stops _ _ _).2
    · cases moved
      exact fun _ selecting => by cases selecting
  · split at moved
    · cases moved
      exact fun _ selecting => by cases selecting
    · cases moved
      cases s.metrics <;> simp [Listening]
  · cases moved

theorem step_listening {input : Input ω} (moved : step config alloy s input = some t) :
    Listening t := by
  cases input with
  | pollCtrlC result =>
      simp only [step, selectStep] at moved
      split at moved
      · cases moved
        exact fun _ selecting => by cases selecting
      · cases moved
        exact fun _ _ => rfl
      · cases moved
  | signal =>
      simp only [step, signalStep] at moved
      split at moved
      · cases moved
      · split at moved
        · rename_i installed
          cases moved
          exact fun _ _ => installed
        · cases moved
      · rename_i elsewhere
        split at moved
        · cases moved
          exact fun pending selecting => absurd selecting (elsewhere pending)
        · cases moved
  | next log? =>
      simp only [step, selectStep] at moved
      split at moved
      · cases moved
        exact take_listens _ _
      · cases moved
        exact fun _ selecting => by cases selecting
      · cases moved
  | lock =>
      simp only [step, processStep] at moved
      split at moved
      · split at moved
        · cases moved
          exact fun _ selecting => by cases selecting
        · cases moved
          exact (decode_stops _ _).2
      · cases moved
        exact (decode_stops _ _).2
      · cases moved
  | sink io => exact sink_listens moved
  | _ =>
      -- every other step leads to a phase outside the select
      simp only [step, reconnectStep, selectStep, processStep] at moved
      split at moved <;>
        first
        | cases moved; done
        | (cases moved; exact fun _ selecting => by cases selecting)

/-- A run that has not returned can be brought nearer to its return. -/
theorem stop_moves (io : ω) (listening : Listening s) (running : ¬s.phase.hasReturned) :
    ∃ t, step config alloy s (s.phase.stopInput io) = some t ∧ Listening t ∧
      t.phase.stopRank < s.phase.stopRank := by
  have known : ∀ {t : State σ ω} {after : Phase}, t.phase = after →
      (∀ pending, after ≠ .selecting (some pending)) → Listening t :=
    fun is other pending selecting => absurd (is.symm.trans selecting) (other pending)
  cases phase : s.phase with
  | starting =>
      cases built : buildWsConnect config with
      | error error =>
          exact ⟨_, by simp only [Phase.stopInput, step, reconnectStep, phase, built]; rfl,
            known rfl (by simp), by simp [Phase.stopRank]⟩
      | ok ws =>
          exact ⟨_, by simp only [Phase.stopInput, step, reconnectStep, phase, built]; rfl,
            known rfl (by simp), by simp [Phase.stopRank]⟩
  | connecting ws =>
      cases built : buildFilter alloy.addressFromStr config.startBlock with
      | error error =>
          exact ⟨_, by simp only [Phase.stopInput, step, reconnectStep, phase, built]; rfl,
            known rfl (by simp), by simp [Phase.stopRank]⟩
      | ok filter =>
          exact ⟨_, by simp only [Phase.stopInput, step, reconnectStep, phase, built]; rfl,
            known rfl (by simp), by simp [Phase.stopRank]⟩
  | subscribing filter =>
      exact ⟨_, by simp only [Phase.stopInput, step, reconnectStep, phase]; rfl,
        known rfl (by simp), by simp [Phase.stopRank]⟩
  | backoff seconds =>
      exact ⟨_, by simp only [Phase.stopInput, step, reconnectStep, phase]; rfl,
        known rfl (by simp), by simp [Phase.stopRank]⟩
  | selecting listener =>
      rcases listener with _ | _ | _
      · exact ⟨_, by simp only [Phase.stopInput, step, selectStep, phase]; rfl,
          fun _ _ => rfl, by simp [Phase.stopRank]⟩
      · have installed := listening false phase
        exact ⟨{ s with signalled := true, phase := .selecting (some true) },
          by simp only [Phase.stopInput, step, signalStep, phase]; exact if_pos installed,
          fun _ _ => installed, by simp [Phase.stopRank]⟩
      · exact ⟨_, by simp only [Phase.stopInput, step, selectStep, phase]; rfl,
          known rfl (by simp), by simp [Phase.stopRank]⟩
  | observing taken =>
      exact ⟨_, by simp only [Phase.stopInput, step, processStep, phase]; rfl,
        known rfl (by simp), by simp [Phase.stopRank]⟩
  | recording taken =>
      exact ⟨_, by simp only [Phase.stopInput, step, processStep, phase]; rfl,
        known rfl (by simp), by simp [Phase.stopRank]⟩
  | locking taken =>
      cases due : s.nextRotationBlock with
      | none =>
          obtain ⟨rank, listens⟩ := @decode_stops _ _ alloy (s.openWindow config taken) taken
          exact ⟨_, by simp only [Phase.stopInput, step, processStep, phase, due], listens,
            Nat.lt_of_le_of_lt rank (by simp [Phase.stopRank])⟩
      | some target =>
          by_cases isDue : target ≤ taken.blockNumber
          · exact ⟨_,
              by simp only [Phase.stopInput, step, processStep, phase, due, isDue, if_true]; rfl,
              known rfl (by simp), by simp [Phase.stopRank]⟩
          · obtain ⟨rank, listens⟩ := @decode_stops _ _ alloy s taken
            exact ⟨_,
              by simp only [Phase.stopInput, step, processStep, phase, due, isDue, if_false],
              listens, Nat.lt_of_le_of_lt rank (by simp [Phase.stopRank])⟩
  | rotating taken =>
      rcases call : (EventSink.rotate io).run s.sink with ⟨error | _, sink⟩
      · exact ⟨_, by simp only [Phase.stopInput, step, processStep, sinkStep, phase, call]; rfl,
          known rfl (by simp), by simp [Phase.stopRank]⟩
      · obtain ⟨rank, listens⟩ := @decode_stops _ _ alloy (State.openWindow config
          (State.measure ({ s with sink := sink }.note (.rotated io)) countRotation) taken) taken
        exact ⟨_, by simp only [Phase.stopInput, step, processStep, sinkStep, phase, call],
          listens, Nat.lt_of_le_of_lt rank (by simp [Phase.stopRank])⟩
  | observingType taken decoded =>
      exact ⟨_, by simp only [Phase.stopInput, step, processStep, phase]; rfl,
        known rfl (by simp), by simp [Phase.stopRank]⟩
  | recordingType taken decoded =>
      exact ⟨_, by simp only [Phase.stopInput, step, processStep, phase]; rfl,
        known rfl (by simp), by simp [Phase.stopRank]⟩
  | writing taken decoded =>
      rcases call : (EventSink.writeEvent io (taken.call decoded)).run s.sink with ⟨error | _, sink⟩
      · obtain ⟨rank, listens⟩ := fail_stops (State.measure
          ({ s with sink := sink }.note (.sinkFailed error)) observeDuration) countWriteError error
        exact ⟨_, by simp only [Phase.stopInput, step, processStep, sinkStep, phase, call],
          listens, Nat.lt_of_le_of_lt rank (by simp [Phase.stopRank])⟩
      · exact ⟨_, by simp only [Phase.stopInput, step, processStep, sinkStep, phase, call]; rfl,
          known rfl (by simp), by simp [Phase.stopRank]⟩
  | closing =>
      rcases call : (EventSink.close io).run s.sink with ⟨error | _, sink⟩
      · exact ⟨_, by simp only [Phase.stopInput, step, processStep, sinkStep, phase, call]; rfl,
          known rfl (by simp), by simp [Phase.stopRank]⟩
      · cases metrics : s.metrics with
        | none =>
            exact ⟨_, by simp only [Phase.stopInput, step, processStep, sinkStep, phase, call]; rfl,
              known rfl (by simp [metrics]), by simp [Phase.stopRank, metrics]⟩
        | some value =>
            exact ⟨_, by simp only [Phase.stopInput, step, processStep, sinkStep, phase, call]; rfl,
              known rfl (by simp [metrics]), by simp [Phase.stopRank, metrics]⟩
  | exiting result =>
      exact ⟨_, by simp only [Phase.stopInput, step, processStep, phase]; rfl,
        known rfl (by simp), by simp [Phase.stopRank]⟩
  | returned result => exact absurd (by rw [phase]; trivial) running

/-- Whatever happened so far, the run can be brought to its return. -/
theorem stops_from (io : ω) (listening : Listening s) :
    ∃ more u result, exec (step config alloy) s more = some u ∧ u.phase = .returned result ∧
      (∀ input ∈ more, ∃ phase : Phase, phase.stopInput io = input) ∧
      more.length ≤ s.phase.stopRank := by
  have moves : ∀ s : State σ ω, Listening s → ¬s.phase.hasReturned →
      ∃ t, step config alloy s (s.phase.stopInput io) = some t ∧ Listening t ∧
        t.phase.stopRank < s.phase.stopRank := fun _ inv running => stop_moves io inv running
  obtain ⟨more, u, reached, goal, chosen, short⟩ := strategy_reaches moves listening
  cases phase : u.phase with
  | returned result =>
      refine ⟨more, u, result, reached, phase, ?_, short⟩
      intro input member
      obtain ⟨v, -, -, same⟩ := chosen input member
      exact ⟨v.phase, same⟩
  | _ => exact absurd goal (by rw [phase]; exact id)

theorem stop_received {io : ω} {more : List (Input ω)}
    (chosen : ∀ input ∈ more, ∃ phase : Phase, phase.stopInput io = input)
    (reached : exec (step config alloy) s more = some t) : t.received = s.received := by
  have keeps : ∀ (a : State σ ω) (input : Input ω) (b : State σ ω),
      (∃ phase : Phase, phase.stopInput io = input) → a.received = s.received →
      step config alloy a input = some b → b.received = s.received := by
    rintro a input b ⟨phase, rfl⟩ before moved
    rw [received_other ?_ moved, before]
    intro log
    cases phase with
    | selecting listener => rcases listener with _ | _ | _ <;> simp [Phase.stopInput]
    | _ => simp [Phase.stopInput]
  exact exec_invariant _ keeps chosen reached rfl

theorem stopRank_le (phase : Phase) : phase.stopRank ≤ 12 := by
  cases phase with
  | selecting listener => rcases listener with _ | _ | _ <;> decide
  | _ => simp [Phase.stopRank]

theorem run_listening {storage : Except String σ} {runtime : Except String FrontfillMetrics}
    {inputs : List (Input ω)} (start : launch config storage runtime = .ok s)
    (run : exec (step config alloy) s inputs = some t) : Listening t := by
  have first : Listening s := by
    intro pending selecting
    rw [(launch_start start).2.2.1] at selecting
    cases selecting
  exact exec_invariant _ (fun _ _ _ (_ : True) _ moved => step_listening moved)
    (fun _ _ => trivial) run first

end Stop

section Run

variable {σ ω : Type} [EventSink σ ω] {config : FrontfillConfig} {alloy : Alloy} {s t : State σ ω}

/-- A log costs the run at most seven steps of its own and two calls of the sink, the shutdown two
steps and a call. It is never stuck: whatever happened so far and whatever the sink answers, a dozen
inputs without a further log bring it to its return. -/
theorem work_is_bounded {storage : Except String σ} {runtime : Except String FrontfillMetrics}
    {inputs : List (Input ω)} (start : launch config storage runtime = .ok s)
    (run : exec (step config alloy) s inputs = some t) :
    inputs.countP Input.own + t.phase.rank ≤ 7 * t.received.length + 2 ∧
    inputs.countP Input.callsSink + t.phase.callsLeft ≤ 2 * t.received.length + 1 ∧
    ∀ io, ∃ more u result, exec (step config alloy) t more = some u ∧
      u.phase = .returned result ∧ u.received = t.received ∧ more.length ≤ 12 ∧
      ∀ io', .sink io' ∈ more → io' = io := by
  obtain ⟨-, -, starting, trace, -⟩ := launch_start start
  have none_ : s.received = [] := by rw [State.received, trace]; rfl
  have logs := received_count run
  rw [none_, List.length_nil, Nat.zero_add] at logs
  have own := amortised (fun _ _ _ moved => (step_costs moved).own) run
  have calls := amortised (fun _ _ _ moved => (step_costs moved).calls) run
  rw [starting, ← logs] at own calls
  refine ⟨?_, ?_, fun io => ?_⟩
  · exact own.trans (Nat.le_of_eq (Nat.add_comm _ _))
  · exact calls.trans (Nat.le_of_eq (Nat.add_comm _ _))
  · obtain ⟨more, u, result, reached, returned, chosen, short⟩ :=
      @stops_from _ _ _ config alloy t io (run_listening start run)
    refine ⟨more, u, result, reached, returned, stop_received chosen reached,
      short.trans (stopRank_le _), fun io' member => ?_⟩
    obtain ⟨phase, same⟩ := chosen _ member
    cases phase with
    | selecting listener => rcases listener with _ | _ | _ <;> cases same
    | rotating | writing | closing => exact (Input.sink.inj same).symm
    | _ => cases same

end Run

section Example

/-- One log has been written: two steps of the run's own and one call. -/
theorem work_is_bounded_one : ∃ t more u result,
    live (connecting ++ ingesting (cancelled 10 0)) = some t ∧
    (connecting ++ ingesting (cancelled 10 0)).countP Input.own + t.phase.rank ≤ 9 ∧
    (connecting ++ ingesting (cancelled 10 0)).countP Input.callsSink + t.phase.callsLeft ≤ 3 ∧
    exec (step liveConfig Reference.alloy) t more = some u ∧ u.phase = .returned result ∧
    more.length ≤ 12 := by
  have returns : (live (connecting ++ ingesting (cancelled 10 0))).isSome := by
    rw [live_connecting]
    rfl
  obtain ⟨t, run⟩ := Option.isSome_iff_exists.mp returns
  have heard := run
  rw [live_connecting] at heard
  have received : t.received.length = 1 := seen (fun t => t.received.length) heard rfl
  obtain ⟨own, calls, stops⟩ := work_is_bounded liveStart_launched run
  rw [received] at own calls
  obtain ⟨more, u, result, reached, returned, -, short, -⟩ := stops sinkOk
  exact ⟨t, more, u, result, run, own, calls, reached, returned, short⟩

end Example

end PolymarketIndexer.Frontfill
