import PolymarketIndexer.Frontfill.Machine

/-! # What one step of the live indexer can do

Each step is one of a few kinds: it leaves the sink and the trace alone, takes a log,
decides about the log in hand, or calls the sink. The invariants of the run are
derived from this list.
-/

namespace PolymarketIndexer.Frontfill

variable {σ ω : Type}

/-- The log in hand, with its event once it is decoded. -/
def Phase.inHand : Phase → Option (Taken × Option DecodedEvent)
  | .observing taken | .recording taken | .locking taken | .rotating taken => some (taken, none)
  | .observingType taken decoded | .recordingType taken decoded | .writing taken decoded =>
      some (taken, some decoded)
  | _ => none

/-- The result of a run that has left its loops. -/
def Phase.result? : Phase → Option (Except String Unit)
  | .exiting result | .returned result => some result
  | _ => none

/-- Neither a subscription nor a rotation is called for. -/
def Phase.Plain : Phase → Prop
  | .subscribing _ | .rotating _ => False
  | _ => True

theorem Phase.Plain.not_subscribing {phase : Phase} (plain : phase.Plain) (filter : Filter) :
    phase ≠ .subscribing filter := by
  rintro rfl
  exact plain

theorem Phase.Plain.not_rotating {phase : Phase} (plain : phase.Plain) (taken : Taken) :
    phase ≠ .rotating taken := by
  rintro rfl
  exact plain

section Fields

variable (s : State σ ω)

@[simp] theorem measure_sink (f : FrontfillMetrics → FrontfillMetrics) :
    (s.measure f).sink = s.sink := rfl
@[simp] theorem measure_trace (f : FrontfillMetrics → FrontfillMetrics) :
    (s.measure f).trace = s.trace := rfl
@[simp] theorem measure_phase (f : FrontfillMetrics → FrontfillMetrics) :
    (s.measure f).phase = s.phase := rfl
@[simp] theorem note_sink (effect : Effect ω) : (s.note effect).sink = s.sink := rfl
@[simp] theorem note_trace (effect : Effect ω) : (s.note effect).trace = s.trace ++ [effect] := rfl
@[simp] theorem backOff_sink : s.backOff.sink = s.sink := rfl
@[simp] theorem backOff_trace : s.backOff.trace = s.trace := rfl
@[simp] theorem backOff_inHand : s.backOff.phase.inHand = none := rfl
@[simp] theorem backOff_result : s.backOff.phase.result? = none := rfl
@[simp] theorem leave_sink (error : String) : (s.leave error).sink = s.sink := rfl
@[simp] theorem leave_trace (error : String) : (s.leave error).trace = s.trace := rfl
@[simp] theorem leave_phase (error : String) :
    (s.leave error).phase = .returned (.error error) := rfl
@[simp] theorem select_sink : s.select.sink = s.sink := rfl
@[simp] theorem select_trace : s.select.trace = s.trace := rfl
@[simp] theorem select_phase : s.select.phase = .selecting none := rfl
@[simp] theorem fail_sink (count : FrontfillMetrics → FrontfillMetrics) (error : String) :
    (s.fail count error).sink = s.sink := rfl
@[simp] theorem fail_trace (count : FrontfillMetrics → FrontfillMetrics) (error : String) :
    (s.fail count error).trace = s.trace := rfl

@[simp] theorem fail_inHand (count : FrontfillMetrics → FrontfillMetrics) (error : String) :
    (s.fail count error).phase.inHand = none := by
  unfold State.fail
  cases s.metrics <;> rfl

@[simp] theorem fail_result (count : FrontfillMetrics → FrontfillMetrics) (error : String) :
    (s.fail count error).phase.result? = some (.error error) := by
  unfold State.fail
  cases s.metrics <;> rfl

variable (alloy : Alloy)

@[simp] theorem decode_sink (taken : Taken) : (s.decode alloy taken).sink = s.sink := by
  unfold State.decode
  split <;> rfl

@[simp] theorem decode_trace (taken : Taken) : (s.decode alloy taken).trace = s.trace := by
  unfold State.decode
  split <;> rfl

@[simp] theorem take_sink (log : Log) : (s.take alloy log).sink = s.sink := by
  unfold State.take
  split <;> rfl

@[simp] theorem take_trace (log : Log) :
    (s.take alloy log).trace = s.trace ++ [.received log] := by
  unfold State.take
  split <;> rfl

@[simp] theorem decode_window (taken : Taken) :
    (s.decode alloy taken).nextRotationBlock = s.nextRotationBlock := by
  unfold State.decode
  split <;> rfl

@[simp] theorem take_window (log : Log) :
    (s.take alloy log).nextRotationBlock = s.nextRotationBlock := by
  unfold State.take
  split <;> rfl

theorem decode_plain (taken : Taken) : (s.decode alloy taken).phase.Plain := by
  unfold State.decode State.fail
  split
  · cases s.metrics <;> trivial
  · trivial
  · cases s.metrics <;> trivial

theorem take_plain (log : Log) : (s.take alloy log).phase.Plain := by
  unfold State.take State.fail
  split
  · cases metrics : (s.note (.received log)).metrics <;> trivial
  · cases s.metrics <;> trivial

end Fields

section Decisions

variable {alloy : Alloy} (s : State σ ω)

/-- A log in hand is dropped, kept with its event, or ends the run. -/
theorem decode_decides (taken : Taken) :
    (∃ error, decodeLog alloy taken.log = .error error ∧
        (s.decode alloy taken).phase.inHand = none ∧
        (s.decode alloy taken).phase.result? = some (.error error)) ∨
      (decodeLog alloy taken.log = .ok none ∧
        (s.decode alloy taken).phase = .selecting none) ∨
      ∃ decoded, decodeLog alloy taken.log = .ok (some decoded) ∧
        (s.decode alloy taken).phase.inHand = some (taken, some decoded) ∧
        (s.decode alloy taken).phase.result? = none := by
  unfold State.decode
  rcases decodeLog alloy taken.log with error | _ | decoded
  · exact .inl ⟨error, rfl, fail_inHand _ _ _, fail_result _ _ _⟩
  · exact .inr (.inl ⟨rfl, rfl⟩)
  · refine .inr (.inr ⟨decoded, rfl, ?_, ?_⟩)
    · cases s.metrics <;> rfl
    · cases s.metrics <;> rfl

/-- A log off the stream is in hand when it has its metadata; otherwise it ends the run. -/
theorem take_decides (log : Log) :
    (∃ error, checkMetadata alloy log = .error error ∧
        (s.take alloy log).phase.inHand = none ∧
        (s.take alloy log).phase.result? = some (.error error)) ∨
      ∃ taken, checkMetadata alloy log = .ok taken ∧
        (s.take alloy log).phase.inHand = some (taken, none) ∧
        (s.take alloy log).phase.result? = none := by
  unfold State.take
  cases checkMetadata alloy log with
  | error error => exact .inl ⟨error, rfl, fail_inHand _ _ _, fail_result _ _ _⟩
  | ok taken =>
      refine .inr ⟨taken, rfl, ?_, ?_⟩
      · cases s.metrics <;> rfl
      · cases s.metrics <;> rfl

/-- A log passes the checks when nothing is missing. -/
theorem checkMetadata_iff {log : Log} {taken : Taken} :
    checkMetadata alloy log = .ok taken ↔ ∃ hash, log.blockNumber = some taken.blockNumber ∧
      log.transactionHash = some hash ∧ log.logIndex = some taken.logIndex ∧ taken.log = log ∧
      taken.txHash = alloy.hashToString hash := by
  obtain ⟨log', blockNumber, txHash, logIndex⟩ := taken
  unfold checkMetadata
  rcases log.blockNumber with _ | block
  · simp
  · rcases log.transactionHash with _ | hash
    · simp
    · rcases log.logIndex with _ | index
      · simp
      · simp only [Except.ok.injEq, Taken.mk.injEq, Option.some.injEq]
        constructor
        · rintro ⟨rfl, rfl, rfl, rfl⟩
          exact ⟨hash, rfl, rfl, rfl, rfl, rfl⟩
        · rintro ⟨_, rfl, rfl, rfl, rfl, rfl⟩
          exact ⟨rfl, rfl, rfl, rfl⟩

end Decisions

/-- A launched run stands before its first connection. -/
theorem launch_start {config : FrontfillConfig} {storage : Except String σ}
    {runtime : Except String FrontfillMetrics}
    {s : State σ ω} (h : launch config storage runtime = .ok s) :
    config.flushBlocks ≠ 0 ∧ storage = .ok s.sink ∧ s.phase = .starting ∧ s.trace = [] ∧
      s.signalled = false ∧ s.handlerInstalled = false ∧ s.nextRotationBlock = none := by
  unfold launch at h
  by_cases zero : config.flushBlocks = 0
  · rw [if_pos zero] at h
    cases h
  · rw [if_neg zero] at h
    simp only [bind, Except.bind, pure, Except.pure] at h
    split at h
    · cases h
    · split at h
      · cases h
      · obtain rfl := Except.ok.inj h
        exact ⟨zero, rfl, rfl, rfl, rfl, rfl, rfl⟩

variable [EventSink σ ω] (config : FrontfillConfig) (alloy : Alloy)

/-- The kinds of steps. -/
inductive Moves (s : State σ ω) : Input ω → State σ ω → Prop where
  | quiet {input : Input ω} {t : State σ ω} (sink : t.sink = s.sink) (trace : t.trace = s.trace)
      (inHand : t.phase.inHand = s.phase.inHand) (result : t.phase.result? = s.phase.result?)
      (subscribing : ∀ filter, t.phase = .subscribing filter → s.phase = .subscribing filter ∨
        buildFilter alloy.addressFromStr config.startBlock = .ok filter)
      (window : t.nextRotationBlock = s.nextRotationBlock)
      (due : ∀ taken, t.phase = .rotating taken → s.phase = .rotating taken ∨
        ∃ target, s.nextRotationBlock = some target ∧ target ≤ taken.blockNumber) : Moves s input t
  | refused {input : Input ω} {error : String} (free : s.phase.inHand = none)
      (running : s.phase.result? = none)
      (why : input = .pollCtrlC (.error error) ∨
        (input = .connect ∧ buildWsConnect config = .error error) ∨
        (input = .connected (.ok ()) ∧
          buildFilter alloy.addressFromStr config.startBlock = .error error)) :
      Moves s input ((s.note (.refused error)).leave error)
  | took {listener : Option Bool} {log : Log} (selecting : s.phase = .selecting listener) :
      Moves s (.next (some log)) (s.take alloy log)
  | decided {u : State σ ω} {taken : Taken} (locking : s.phase = .locking taken)
      (early : ∀ target, s.nextRotationBlock = some target → ¬target ≤ taken.blockNumber)
      (sink : u.sink = s.sink) (trace : u.trace = s.trace)
      (window : u.nextRotationBlock = some (s.nextRotationBlock.getD
        (U64.saturatingAdd taken.blockNumber config.flushBlocks))) :
      Moves s .lock (u.decode alloy taken)
  | rotated {u : State σ ω} {taken : Taken} {io : ω} (rotating : s.phase = .rotating taken)
      (call : (EventSink.rotate io).run s.sink = (.ok (), u.sink))
      (trace : u.trace = s.trace ++ [.rotated io])
      (window : u.nextRotationBlock =
        some (U64.saturatingAdd taken.blockNumber config.flushBlocks)) :
      Moves s (.sink io) (u.decode alloy taken)
  | rotateFailed {sink : σ} {taken : Taken} {io : ω} {error : String}
      (rotating : s.phase = .rotating taken)
      (call : (EventSink.rotate io).run s.sink = (.error error, sink)) :
      Moves s (.sink io) (({ s with sink := sink }.note (.sinkFailed error)).leave error)
  | wrote {t : State σ ω} {taken : Taken} {decoded : DecodedEvent} {io : ω}
      (writing : s.phase = .writing taken decoded)
      (call : (EventSink.writeEvent io (taken.call decoded)).run s.sink = (.ok (), t.sink))
      (trace : t.trace = s.trace ++ [.wrote io (taken.call decoded)])
      (selecting : t.phase = .selecting none)
      (window : t.nextRotationBlock = s.nextRotationBlock) : Moves s (.sink io) t
  | writeFailed {t : State σ ω} {taken : Taken} {decoded : DecodedEvent} {io : ω} {error : String}
      (writing : s.phase = .writing taken decoded)
      (call : (EventSink.writeEvent io (taken.call decoded)).run s.sink = (.error error, t.sink))
      (trace : t.trace = s.trace ++ [.sinkFailed error]) (free : t.phase.inHand = none)
      (result : t.phase.result? = some (.error error))
      (window : t.nextRotationBlock = s.nextRotationBlock) : Moves s (.sink io) t
  | closed {t : State σ ω} {io : ω} (closing : s.phase = .closing)
      (call : (EventSink.close io).run s.sink = (.ok (), t.sink))
      (trace : t.trace = s.trace ++ [.closed io]) (free : t.phase.inHand = none)
      (result : t.phase.result? = some (.ok ()))
      (window : t.nextRotationBlock = s.nextRotationBlock) : Moves s (.sink io) t
  | closeFailed {sink : σ} {io : ω} {error : String} (closing : s.phase = .closing)
      (call : (EventSink.close io).run s.sink = (.error error, sink)) :
      Moves s (.sink io) (({ s with sink := sink }.note (.sinkFailed error)).leave error)

variable {config alloy}

/-- A step between two phases of one kind that touches neither the sink nor the trace. -/
theorem Moves.between {s t : State σ ω} {input : Input ω} {before : Phase}
    (was : s.phase = before) (sink : t.sink = s.sink) (trace : t.trace = s.trace)
    (window : t.nextRotationBlock = s.nextRotationBlock)
    (inHand : t.phase.inHand = before.inHand) (result : t.phase.result? = before.result?)
    (plain : t.phase.Plain) : Moves config alloy s input t := by
  subst was
  refine .quiet sink trace inHand result ?_ window ?_
  · exact fun filter subscribing => absurd subscribing (plain.not_subscribing filter)
  · exact fun taken rotating => absurd rotating (plain.not_rotating taken)

theorem reconnect_moves {s t : State σ ω} {input : Input ω}
    (h : reconnectStep config alloy s input = some t) : Moves config alloy s input t := by
  cases input with
  | connect =>
      simp only [reconnectStep] at h
      split at h
      · rename_i error starting failed
        obtain rfl := Option.some.inj h
        exact .refused (by rw [starting]; rfl) (by rw [starting]; rfl) (.inr (.inl ⟨rfl, failed⟩))
      · rename_i ws starting built
        obtain rfl := Option.some.inj h
        exact .between starting rfl rfl rfl rfl rfl trivial
      · cases h
  | connected result =>
      simp only [reconnectStep] at h
      split at h
      · rename_i connecting
        obtain rfl := Option.some.inj h
        exact .between connecting rfl rfl rfl rfl rfl trivial
      · rename_i error connecting failed
        obtain rfl := Option.some.inj h
        exact .refused (by rw [connecting]; rfl) (by rw [connecting]; rfl) (.inr (.inr ⟨rfl, failed⟩))
      · rename_i filter connecting built
        obtain rfl := Option.some.inj h
        refine .quiet rfl rfl (by rw [connecting]; rfl) (by rw [connecting]; rfl) ?_ rfl nofun
        intro filter' same
        obtain rfl := Phase.subscribing.inj same
        exact .inr built
      · cases h
  | subscribed result =>
      simp only [reconnectStep] at h
      split at h
      · rename_i subscribing
        obtain rfl := Option.some.inj h
        exact .between subscribing rfl rfl rfl rfl rfl trivial
      · rename_i subscribing
        obtain rfl := Option.some.inj h
        exact .between subscribing rfl rfl rfl rfl rfl trivial
      · cases h
  | slept =>
      simp only [reconnectStep] at h
      split at h
      · rename_i backoff
        obtain rfl := Option.some.inj h
        exact .between backoff rfl rfl rfl rfl rfl trivial
      · cases h
  | _ => cases h

theorem select_moves {s t : State σ ω} {input : Input ω}
    (h : selectStep alloy s input = some t) : Moves config alloy s input t := by
  cases input with
  | pollCtrlC result =>
      simp only [selectStep] at h
      split at h
      · rename_i error selecting
        obtain rfl := Option.some.inj h
        exact .refused (by rw [selecting]; rfl) (by rw [selecting]; rfl) (.inl rfl)
      · rename_i selecting
        obtain rfl := Option.some.inj h
        exact .between selecting rfl rfl rfl rfl rfl trivial
      · cases h
  | next log =>
      simp only [selectStep] at h
      split at h
      · rename_i listener log selecting
        obtain rfl := Option.some.inj h
        exact .took selecting
      · rename_i listener selecting
        obtain rfl := Option.some.inj h
        exact .between selecting rfl rfl rfl rfl rfl trivial
      · cases h
  | shutdown =>
      simp only [selectStep] at h
      split at h
      · rename_i selecting
        obtain rfl := Option.some.inj h
        exact .between selecting rfl rfl rfl rfl rfl trivial
      · cases h
  | _ => cases h

theorem sink_moves {s t : State σ ω} {io : ω} (h : sinkStep config alloy s io = some t) :
    Moves config alloy s (.sink io) t := by
  unfold sinkStep at h
  split at h
  · rename_i taken rotating
    split at h
    · rename_i error sink call
      obtain rfl := Option.some.inj h
      exact .rotateFailed rotating call
    · rename_i sink call
      obtain rfl := Option.some.inj h
      exact .rotated rotating call rfl rfl
  · rename_i taken decoded writing
    split at h
    · rename_i error sink call
      obtain rfl := Option.some.inj h
      exact .writeFailed writing (by simpa using call) (by simp) (by simp) (by simp) rfl
    · rename_i sink call
      obtain rfl := Option.some.inj h
      exact .wrote writing call rfl rfl rfl
  · rename_i closing
    split at h
    · rename_i error sink call
      obtain rfl := Option.some.inj h
      exact .closeFailed closing call
    · rename_i sink call
      obtain rfl := Option.some.inj h
      refine .closed closing call rfl ?_ ?_ rfl
      · cases s.metrics <;> rfl
      · cases s.metrics <;> rfl
  · cases h

theorem process_moves {s t : State σ ω} {input : Input ω}
    (h : processStep config alloy s input = some t) : Moves config alloy s input t := by
  cases input with
  | observe unixSeconds =>
      simp only [processStep] at h
      split at h
      · rename_i taken observing
        obtain rfl := Option.some.inj h
        exact .between observing rfl rfl rfl rfl rfl trivial
      · rename_i taken decoded observing
        obtain rfl := Option.some.inj h
        exact .between observing rfl rfl rfl rfl rfl trivial
      · cases h
  | record seen now =>
      simp only [processStep] at h
      split at h
      · rename_i taken recording
        obtain rfl := Option.some.inj h
        exact .between recording rfl rfl rfl rfl rfl trivial
      · rename_i taken decoded recording
        obtain rfl := Option.some.inj h
        exact .between recording rfl rfl rfl rfl rfl trivial
      · cases h
  | lock =>
      simp only [processStep] at h
      split at h
      · rename_i taken target locking due
        split at h
        · rename_i isDue
          obtain rfl := Option.some.inj h
          refine .quiet rfl rfl (by rw [locking]; rfl) (by rw [locking]; rfl) nofun rfl ?_
          intro taken' same
          obtain rfl := Phase.rotating.inj same
          exact .inr ⟨target, due, isDue⟩
        · rename_i early
          obtain rfl := Option.some.inj h
          refine .decided locking ?_ rfl rfl (by rw [due]; rfl)
          intro target' due'
          obtain rfl := Option.some.inj (due.symm.trans due')
          exact early
      · rename_i taken locking due
        obtain rfl := Option.some.inj h
        exact .decided locking (fun target due' => nomatch due.symm.trans due') rfl rfl
          (by rw [due]; rfl)
      · cases h
  | sink io => exact sink_moves h
  | metricsStopped =>
      simp only [processStep] at h
      split at h
      · rename_i result exiting
        obtain rfl := Option.some.inj h
        exact .between exiting rfl rfl rfl rfl rfl trivial
      · cases h
  | _ => cases h

theorem signal_moves {s t : State σ ω} (h : signalStep s = some t) :
    Moves config alloy s .signal t := by
  unfold signalStep at h
  split at h
  · cases h
  · rename_i listener selecting
    split at h
    · obtain rfl := Option.some.inj h
      exact .between selecting rfl rfl rfl rfl rfl trivial
    · cases h
  · split at h
    · obtain rfl := Option.some.inj h
      exact .quiet rfl rfl rfl rfl (fun _ same => .inl same) rfl (fun _ same => .inl same)
    · cases h

theorem step_moves {s t : State σ ω} {input : Input ω}
    (h : step config alloy s input = some t) : Moves config alloy s input t := by
  cases input with
  | connect | connected | subscribed | slept => exact reconnect_moves h
  | pollCtrlC | next | shutdown => exact select_moves h
  | observe | record | lock | sink | metricsStopped => exact process_moves h
  | signal => exact signal_moves h

end PolymarketIndexer.Frontfill
