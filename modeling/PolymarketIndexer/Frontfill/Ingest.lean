import PolymarketIndexer.Frontfill.Steps
import PolymarketIndexer.Library.Feed
import PolymarketIndexer.Reference
import PolymarketIndexer.Storage.FileSets

/-! # What the live indexer makes of its logs

However the run is interleaved, the calls to the sink are those of the received logs in
order, up to the first log that fails. Its metadata is checked before anything else is
asked of a log, so even a log of an unknown event ends the run when it has none.
-/

namespace PolymarketIndexer.Frontfill

open Feed

section Trace

variable {σ ω : Type}

def Effect.log? : Effect ω → Option Log
  | .received log => some log
  | _ => none

def Effect.call? : Effect ω → Option WriteCall
  | .wrote _ call => some call
  | _ => none

def State.received (s : State σ ω) : List Log := s.trace.filterMap Effect.log?

/-- The `write_event` calls that returned `Ok`. -/
def State.written (s : State σ ω) : List WriteCall := s.trace.filterMap Effect.call?

end Trace

/-- What the run makes of a log. -/
def outcome (alloy : Alloy) (log : Log) : Except String (Option WriteCall) := do
  let taken ← checkMetadata alloy log
  let some decoded ← decodeLog alloy taken.log | return none
  return some (taken.call decoded)

section Outcome

variable {alloy : Alloy} {log : Log} {taken : Taken}

theorem hasMetadata_checked (has : HasMetadata log) : ∃ taken, checkMetadata alloy log = .ok taken := by
  obtain ⟨block, isBlock⟩ := Option.isSome_iff_exists.mp has.1
  obtain ⟨hash, isHash⟩ := Option.isSome_iff_exists.mp has.2.1
  obtain ⟨index, isIndex⟩ := Option.isSome_iff_exists.mp has.2.2
  exact ⟨⟨log, block, alloy.hashToString hash, index⟩,
    checkMetadata_iff.mpr ⟨hash, isBlock, isHash, isIndex, rfl, rfl⟩⟩

theorem outcome_incomplete {error : String} (checked : checkMetadata alloy log = .error error) :
    outcome alloy log = .error error := by
  simp [outcome, checked, bind, Except.bind]

theorem outcome_undecodable {error : String} (checked : checkMetadata alloy log = .ok taken)
    (decoded : decodeLog alloy taken.log = .error error) : outcome alloy log = .error error := by
  simp [outcome, checked, decoded, bind, Except.bind]

theorem outcome_ignored (checked : checkMetadata alloy log = .ok taken)
    (decoded : decodeLog alloy taken.log = .ok none) : outcome alloy log = .ok none := by
  simp [outcome, checked, decoded, bind, Except.bind, pure, Except.pure]

theorem outcome_kept {event : DecodedEvent} (checked : checkMetadata alloy log = .ok taken)
    (decoded : decodeLog alloy taken.log = .ok (some event)) :
    outcome alloy log = .ok (some (taken.call event)) := by
  simp [outcome, checked, decoded, bind, Except.bind, pure, Except.pure]

end Outcome

section Run

variable {σ ω : Type} {config : FrontfillConfig} {alloy : Alloy}

/-- The sink has seen the calls of the received logs, but for the one in hand. -/
structure Ingested (alloy : Alloy) (s : State σ ω) : Prop where
  free : s.phase.inHand = none → s.phase.result? = none ∨ s.phase.result? = some (.ok ()) →
    feed (outcome alloy) s.received = (s.written, none)
  busy : ∀ taken event?, s.phase.inHand = some (taken, event?) →
    ∃ done log, s.received = done ++ [log] ∧ feed (outcome alloy) done = (s.written, none) ∧
      checkMetadata alloy log = .ok taken ∧
      ∀ event, event? = some event → decodeLog alloy taken.log = .ok (some event)
  failed : ∀ error, s.phase.result? = some (.error error) →
    feed (outcome alloy) s.received = (s.written, some error) ∨
      .sinkFailed error ∈ s.trace ∨ .refused error ∈ s.trace

theorem inHand_running {phase : Phase} {held : Taken × Option DecodedEvent}
    (h : phase.inHand = some held) : phase.result? = none := by
  cases phase <;> first | rfl | cases h

/-- A run goes on with no log in hand. -/
theorem Ingested.idle {s : State σ ω} (free : s.phase.inHand = none)
    (fine : feed (outcome alloy) s.received = (s.written, none))
    (running : s.phase.result? = none ∨ s.phase.result? = some (.ok ())) : Ingested alloy s where
  free _ _ := fine
  busy _ _ held := by cases free.symm.trans held
  failed error result := by
    rcases running with none_ | ok
    · cases none_.symm.trans result
    · cases ok.symm.trans result

/-- A run ends with an error. -/
theorem Ingested.stop {s : State σ ω} {error : String} (free : s.phase.inHand = none)
    (result : s.phase.result? = some (.error error))
    (why : feed (outcome alloy) s.received = (s.written, some error) ∨
      .sinkFailed error ∈ s.trace ∨ .refused error ∈ s.trace) : Ingested alloy s where
  free _ running := by
    rcases running with none_ | ok
    · cases none_.symm.trans result
    · cases ok.symm.trans result
  busy _ _ held := by cases free.symm.trans held
  failed error' result' := by
    obtain rfl := Except.error.inj (Option.some.inj (result.symm.trans result'))
    exact why

theorem Ingested.hold {s : State σ ω} {taken : Taken} {event? : Option DecodedEvent}
    {done : List Log} {log : Log} (held : s.phase.inHand = some (taken, event?))
    (last : s.received = done ++ [log]) (fine : feed (outcome alloy) done = (s.written, none))
    (checked : checkMetadata alloy log = .ok taken)
    (decoded : ∀ event, event? = some event → decodeLog alloy taken.log = .ok (some event)) :
    Ingested alloy s where
  free free _ := by cases free.symm.trans held
  busy taken' event?' held' := by
    obtain ⟨rfl, rfl⟩ := Prod.mk.inj (Option.some.inj (held.symm.trans held'))
    exact ⟨done, log, last, fine, checked, decoded⟩
  failed error result := by cases (inHand_running held).symm.trans result

theorem feed_last {done : List Log} {log : Log} {calls : List WriteCall}
    (fine : feed (outcome alloy) done = (calls, none)) :
    feed (outcome alloy) (done ++ [log]) = match outcome alloy log with
      | .error error => (calls, some error)
      | .ok none => (calls, none)
      | .ok (some call) => (calls ++ [call], none) := by
  rw [feed_append_done fine, feed]
  rcases outcome alloy log with error | _ | call <;> simp [feed]

/-- Taking a log off the stream. -/
theorem take_ingested {s : State σ ω} (free : s.phase.inHand = none)
    (running : s.phase.result? = none) (h : Ingested alloy s) (log : Log) :
    Ingested alloy (s.take alloy log) := by
  have fine := h.free free (.inl running)
  have received : (s.take alloy log).received = s.received ++ [log] := by
    simp [State.received, Effect.log?]
  have written : (s.take alloy log).written = s.written := by
    simp [State.written, Effect.call?]
  rcases @take_decides _ _ alloy s log with ⟨error, checked, free', result⟩ |
    ⟨taken, checked, held, -⟩
  · apply Ingested.stop free' result
    left
    rw [received, written, feed_last fine, outcome_incomplete checked]
  · apply Ingested.hold held received _ checked
    · intro event impossible
      cases impossible
    · rw [written]
      exact fine

/-- Deciding about the log in hand. -/
theorem decode_ingested {u : State σ ω} {taken : Taken} {done : List Log} {log : Log}
    (last : u.received = done ++ [log]) (fine : feed (outcome alloy) done = (u.written, none))
    (checked : checkMetadata alloy log = .ok taken) : Ingested alloy (u.decode alloy taken) := by
  have received : (u.decode alloy taken).received = done ++ [log] := by
    rw [← last]
    simp [State.received]
  have written : (u.decode alloy taken).written = u.written := by
    simp [State.written]
  rcases @decode_decides _ _ alloy u taken with ⟨error, decoded, free, result⟩ |
    ⟨decoded, selecting⟩ | ⟨event, decoded, held, -⟩
  · apply Ingested.stop free result
    left
    rw [received, written, feed_last fine, outcome_undecodable checked decoded]
  · apply Ingested.idle
    · rw [selecting]
      rfl
    · rw [received, written, feed_last fine, outcome_ignored checked decoded]
    · rw [selecting]
      exact .inl rfl
  · apply Ingested.hold held received _ checked
    · intro event' same
      obtain rfl := Option.some.inj same
      exact decoded
    · rw [written]
      exact fine

variable [EventSink σ ω]

theorem step_ingested {s t : State σ ω} {input : Input ω} (h : Ingested alloy s)
    (moved : step config alloy s input = some t) : Ingested alloy t := by
  cases step_moves moved with
  | quiet sink trace inHand result subscribing =>
      have received : t.received = s.received := by rw [State.received, trace]; rfl
      have written : t.written = s.written := by rw [State.written, trace]; rfl
      refine ⟨?_, ?_, ?_⟩
      · rw [inHand, result, received, written]
        exact h.free
      · rw [inHand, received, written]
        exact h.busy
      · rw [result, received, written, trace]
        exact h.failed
  | refused free running why =>
      exact .stop rfl rfl (.inr (.inr (by simp)))
  | took selecting =>
      exact take_ingested (by rw [selecting]; rfl) (by rw [selecting]; rfl) h _
  | @decided u taken locking early sink trace =>
      obtain ⟨done, log, last, fine, checked, -⟩ := h.busy taken none (by rw [locking]; rfl)
      have received : u.received = s.received := by rw [State.received, trace]; rfl
      have written : u.written = s.written := by rw [State.written, trace]; rfl
      exact decode_ingested (received.trans last) (by rw [written]; exact fine) checked
  | @rotated u taken io rotating call trace =>
      obtain ⟨done, log, last, fine, checked, -⟩ := h.busy taken none (by rw [rotating]; rfl)
      have received : u.received = s.received := by
        simp [State.received, trace, Effect.log?]
      have written : u.written = s.written := by
        simp [State.written, trace, Effect.call?]
      exact decode_ingested (received.trans last) (by rw [written]; exact fine) checked
  | rotateFailed rotating call =>
      exact .stop rfl rfl (.inr (.inl (by simp)))
  | @wrote _ taken event io writing call trace selecting =>
      obtain ⟨done, log, last, fine, checked, decoded⟩ :=
        h.busy taken (some event) (by rw [writing]; rfl)
      have received : t.received = done ++ [log] := by
        rw [← last]
        simp [State.received, trace, Effect.log?]
      have written : t.written = s.written ++ [taken.call event] := by
        simp [State.written, trace, Effect.call?]
      apply Ingested.idle
      · rw [selecting]
        rfl
      · rw [received, written, feed_last fine, outcome_kept checked (decoded event rfl)]
      · rw [selecting]
        exact .inl rfl
  | writeFailed writing call trace free result =>
      exact .stop free result (.inr (.inl (by simp [trace])))
  | @closed _ io closing call trace free result =>
      have fine := h.free (by rw [closing]; rfl) (.inl (by rw [closing]; rfl))
      have received : t.received = s.received := by
        simp [State.received, trace, Effect.log?]
      have written : t.written = s.written := by
        simp [State.written, trace, Effect.call?]
      apply Ingested.idle free
      · rw [received, written, fine]
      · exact .inr result
  | closeFailed closing call =>
      exact .stop rfl rfl (.inr (.inl (by simp)))

/-- Any run has made the calls of its received logs. -/
theorem run_ingested {storage : Except String σ} {runtime : Except String FrontfillMetrics}
    {s t : State σ ω} {inputs : List (Input ω)} (start : launch config storage runtime = .ok s)
    (run : Machine.exec (step config alloy) s inputs = some t) : Ingested alloy t := by
  obtain ⟨-, -, phase, trace, -⟩ := launch_start start
  have first : Ingested alloy s := by
    apply Ingested.idle
    · rw [phase]
      rfl
    · rw [State.received, State.written, trace]
      rfl
    · rw [phase]
      exact .inl rfl
  have keeps : ∀ (a : State σ ω) (i : Input ω) (b : State σ ω), True → Ingested alloy a →
      step config alloy a i = some b → Ingested alloy b :=
    fun a i b _ before moved => step_ingested before moved
  exact Machine.exec_invariant _ keeps (fun _ _ => trivial) run first

/-- The calls are those of the received logs, or of all but the last of them. -/
def Heard (alloy : Alloy) (s : State σ ω) : Prop :=
  ∃ done, done <+: s.received ∧ s.received.length ≤ done.length + 1 ∧
    feed (outcome alloy) done = (s.written, none)

theorem step_heard {s t : State σ ω} {input : Input ω} (ingested : Ingested alloy s)
    (heard : Heard alloy s) (moved : step config alloy s input = some t) : Heard alloy t := by
  have same : ∀ {u : State σ ω}, u.received = s.received → u.written = s.written →
      Heard alloy u := by
    intro u received written
    unfold Heard
    rw [received, written]
    exact heard
  have after := step_ingested ingested moved
  cases step_moves moved with
  | quiet sink trace =>
      exact same (by rw [State.received, trace]; rfl) (by rw [State.written, trace]; rfl)
  | refused =>
      exact same (by simp [State.received, Effect.log?]) (by simp [State.written, Effect.call?])
  | @took _ log selecting =>
      have fine := ingested.free (by rw [selecting]; rfl) (.inl (by rw [selecting]; rfl))
      have received : (s.take alloy log).received = s.received ++ [log] := by
        simp [State.received, Effect.log?]
      have written : (s.take alloy log).written = s.written := by
        simp [State.written, Effect.call?]
      refine ⟨s.received, ?_, ?_, ?_⟩
      · exact received ▸ List.prefix_append _ _
      · rw [received, List.length_append, List.length_singleton]
      · rw [written]
        exact fine
  | decided locking early sink trace =>
      exact same (by simp [State.received, trace]) (by simp [State.written, trace])
  | rotated rotating call trace =>
      exact same (by simp [State.received, trace, Effect.log?])
        (by simp [State.written, trace, Effect.call?])
  | wrote writing call trace selecting =>
      have fine := after.free (by rw [selecting]; rfl) (.inl (by rw [selecting]; rfl))
      exact ⟨t.received, List.prefix_refl _, Nat.le_succ _, fine⟩
  | writeFailed writing call trace =>
      exact same (by simp [State.received, trace, Effect.log?])
        (by simp [State.written, trace, Effect.call?])
  | closed closing call trace =>
      exact same (by simp [State.received, trace, Effect.log?])
        (by simp [State.written, trace, Effect.call?])
  | rotateFailed | closeFailed =>
      exact same (by simp [State.received, Effect.log?]) (by simp [State.written, Effect.call?])

/-- At any moment a run has written what it made of all its logs but perhaps the last. -/
theorem run_heard {storage : Except String σ} {runtime : Except String FrontfillMetrics}
    {s t : State σ ω} {inputs : List (Input ω)} (start : launch config storage runtime = .ok s)
    (run : Machine.exec (step config alloy) s inputs = some t) : Heard alloy t := by
  obtain ⟨-, -, -, trace, -⟩ := launch_start start
  have ingested : Ingested alloy s := @run_ingested _ _ config alloy _ _ _ _ _ [] start rfl
  have first : Heard alloy s := by
    refine ⟨[], List.nil_prefix, ?_, ?_⟩
    · rw [State.received, trace]
      exact Nat.zero_le _
    · rw [State.written, trace]
      rfl
  have keeps : ∀ (a : State σ ω) (i : Input ω) (b : State σ ω), True →
      Ingested alloy a ∧ Heard alloy a → step config alloy a i = some b →
      Ingested alloy b ∧ Heard alloy b :=
    fun _ _ _ _ before moved => ⟨step_ingested before.1 moved, step_heard before.1 before.2 moved⟩
  exact (Machine.exec_invariant _ keeps (fun _ _ => trivial) run ⟨ingested, first⟩).2

end Run

section Example

def liveConfig : FrontfillConfig where
  flushBlocks := 10
  startBlock := none
  rpcUrl := "ws://localhost:8546"
  rpcAuthKey := none
  rpcAuthHeader := "Authorization"
  rpcAuthScheme := "Bearer"
  metricsEnabled := false

/-- The Parquet sink and no metrics. -/
def liveStart : State ParquetSink ParquetIo where
  phase := .starting
  reconnectAttempt := 0
  nextRotationBlock := none
  metrics := none
  sink := ParquetStorage.fresh
  handlerInstalled := false
  signalled := false
  trace := []

theorem liveStart_launched :
    launch liveConfig (.ok ParquetStorage.fresh) (.error "disabled") =
      .ok liveStart := rfl

/-- Every call of the sink succeeds; the clock stands still. -/
def sinkOk : ParquetIo where
  write := ParquetStorage.allOk 1000
  close := ParquetStorage.closesOk

def live (inputs : List (Input ParquetIo)) : Option (State ParquetSink ParquetIo) :=
  Machine.exec (step liveConfig Reference.alloy) liveStart inputs

def cancelled (block index : UInt64) : Log where
  inner := { address := ⟨0x4bFb41d5B3570DeFd03C39a9A4D8dE6Bd8B8982E⟩,
             data := { topics := [Reference.signatureHash .orderCancelled, ⟨7⟩], data := ⟨[]⟩ } }
  blockNumber := some block
  transactionHash := some ⟨2⟩
  logIndex := some index

def connecting : List (Input ParquetIo) :=
  [.connect, .connected (.ok ()), .subscribed (.ok ())]

/-- The run once it has its stream. -/
def listening : State ParquetSink ParquetIo := { liveStart with phase := .selecting none }

theorem exec_connecting {config : FrontfillConfig} {ws : WsConnect}
    (connects : buildWsConnect config = .ok ws) (inputs : List (Input ParquetIo)) :
    Machine.exec (step config Reference.alloy) liveStart (connecting ++ inputs) =
      Machine.exec (step config Reference.alloy) listening inputs := by
  obtain ⟨filter, filters⟩ := buildFilter_ok Reference.addresses_parse config.startBlock
  simp only [connecting, List.cons_append, List.nil_append, Machine.exec, step, reconnectStep,
    liveStart, connects, filters, Option.bind_some]
  rfl

theorem live_connecting (inputs : List (Input ParquetIo)) :
    live (connecting ++ inputs) =
      Machine.exec (step liveConfig Reference.alloy) listening inputs :=
  exec_connecting rfl inputs

def ingesting (log : Log) : List (Input ParquetIo) := [.next (some log), .lock, .sink sinkOk]

def stopping : List (Input ParquetIo) :=
  [.pollCtrlC (.ok ()), .signal, .shutdown, .sink sinkOk]

theorem seen {α β : Type} {x : Option α} {a : α} (f : α → β) {b : β} (is : x = some a)
    (h : x.map f = some b) : f a = b := by
  rw [is] at h
  exact Option.some.inj h

end Example

end PolymarketIndexer.Frontfill
