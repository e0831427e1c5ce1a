import PolymarketIndexer.Frontfill.History
import PolymarketIndexer.Frontfill.Metering

/-! # The counters of a live run

Seven counters are advanced at different points of the inner loop. Between any two steps each
of them is what the trace says, but for the log or the type in hand that is not entered yet,
until the run fails.
-/

namespace PolymarketIndexer.Frontfill

open Unordered ParquetStorage

section Counts

variable {σ ω : Type}

/-- A log that is received and then dropped. -/
def ignores (alloy : Alloy) (log : Log) : Bool :=
  match decodeLog alloy log with
  | .ok none => true
  | _ => false

def Effect.isRotation : Effect ω → Bool
  | .rotated _ => true
  | _ => false

/-- The rotations that succeeded. -/
def State.rotations (s : State σ ω) : Nat := s.trace.countP Effect.isRotation

theorem fed_length {alloy : Alloy} {logs : List Log} {calls : List WriteCall}
    (fine : Feed.feed (outcome alloy) logs = (calls, none)) :
    logs.length = calls.length + logs.countP (ignores alloy) := by
  induction logs generalizing calls with
  | nil =>
      obtain ⟨rfl, -⟩ := Prod.mk.inj fine
      rfl
  | cons log logs ih =>
      rw [Feed.feed] at fine
      rw [List.length_cons, List.countP_cons]
      cases checked : checkMetadata alloy log with
      | error error => simp [outcome_incomplete checked] at fine
      | ok taken =>
          obtain ⟨-, -, -, -, same, -⟩ := checkMetadata_iff.mp checked
          rcases decoded : decodeLog alloy taken.log with error | _ | event
          · simp [outcome_undecodable checked decoded] at fine
          · simp only [outcome_ignored checked decoded] at fine
            have dropped : ignores alloy log = true := by rw [ignores, ← same, decoded]
            rw [ih fine, if_pos dropped]
            rfl
          · simp only [outcome_kept checked decoded, Prod.mk.injEq] at fine
            obtain ⟨rfl, rest⟩ := fine
            have kept : ¬ignores alloy log = true := by simp [ignores, ← same, decoded]
            rw [ih (Prod.ext rfl rest), if_neg kept, List.length_cons]
            exact Nat.add_right_comm _ _ _

end Counts

/-- Logs received and not counted yet. -/
def Stage.pendingLogs : Stage → Nat
  | .uncounted => 1
  | _ => 0

/-- Types counted and not written yet. -/
def Stage.pendingTypes : Stage → Nat
  | .typed => 1
  | _ => 0

section Tally

variable {σ ω : Type} {alloy : Alloy} {s t : State σ ω} {a b : Ledger} {input : Input ω}

/-- The ledger says what the trace says, but for what the stage still has to enter. -/
structure Tallied (s : State σ ω) (a : Ledger) : Prop where
  logs : a.logs + s.phase.stage.pendingLogs = s.received.length
  types : a.types = s.written.length + s.phase.stage.pendingTypes
  writes : a.writes = s.written.length
  rotations : a.rotations = s.rotations
  missingMetadata : a.missingMetadata = 0
  decodeErrors : a.decodeErrors = 0
  writeErrors : a.writeErrors = 0

/-- A step keeps the tally when it enters what it adds to the trace and what it no longer owes. -/
theorem Tallied.advance {before after : Stage} {effects : List (Effect ω)} (tallied : Tallied s a)
    (was : s.phase.stage = before) (now : t.phase.stage = after)
    (trace : t.trace = s.trace ++ effects)
    (logs : b.logs + after.pendingLogs =
      a.logs + before.pendingLogs + (effects.filterMap Effect.log?).length)
    (types : b.types + before.pendingTypes =
      a.types + (effects.filterMap Effect.call?).length + after.pendingTypes)
    (writes : b.writes = a.writes + (effects.filterMap Effect.call?).length)
    (rotations : b.rotations = a.rotations + effects.countP Effect.isRotation)
    (missingMetadata : b.missingMetadata = a.missingMetadata)
    (decodeErrors : b.decodeErrors = a.decodeErrors)
    (writeErrors : b.writeErrors = a.writeErrors) : Tallied t b := by
  subst was now
  refine ⟨?_, ?_, ?_, ?_, missingMetadata.trans tallied.missingMetadata,
    decodeErrors.trans tallied.decodeErrors, writeErrors.trans tallied.writeErrors⟩
  · have before := tallied.logs
    rw [State.received] at before ⊢
    rw [trace, List.filterMap_append, List.length_append]
    omega
  · have before := tallied.types
    rw [State.written] at before ⊢
    rw [trace, List.filterMap_append, List.length_append]
    omega
  · have before := tallied.writes
    rw [State.written] at before ⊢
    rw [trace, List.filterMap_append, List.length_append]
    omega
  · have before := tallied.rotations
    rw [State.rotations] at before ⊢
    rw [trace, List.countP_append]
    omega

/-- A step that adds nothing to the trace only enters what was owed. -/
theorem Tallied.settle {before after : Stage} (tallied : Tallied s a)
    (was : s.phase.stage = before) (now : t.phase.stage = after) (trace : t.trace = s.trace)
    (logs : b.logs + after.pendingLogs = a.logs + before.pendingLogs)
    (types : b.types + before.pendingTypes = a.types + after.pendingTypes)
    (writes : b.writes = a.writes) (rotations : b.rotations = a.rotations)
    (missingMetadata : b.missingMetadata = a.missingMetadata)
    (decodeErrors : b.decodeErrors = a.decodeErrors)
    (writeErrors : b.writeErrors = a.writeErrors) : Tallied t b :=
  tallied.advance was now (trace.trans (List.append_nil _).symm) logs types writes rotations
    missingMetadata decodeErrors writeErrors

theorem meters_tallied (tallied : Tallied s a) (running : t.phase.stage ≠ .gone)
    (meters : Meters alloy s a input t b) : Tallied t b := by
  cases meters with
  | steady stage result trace =>
      exact tallied.settle rfl stage trace rfl rfl rfl rfl rfl rfl rfl
  | subscribed outside loop trace =>
      exact tallied.settle outside loop trace rfl rfl rfl rfl rfl rfl rfl
  | ended loop outside trace =>
      exact tallied.settle loop outside trace rfl rfl rfl rfl rfl rfl rfl
  | took loop checked observing trace =>
      exact tallied.advance loop (congrArg Phase.stage observing) trace rfl rfl rfl rfl rfl rfl rfl
  | counted observing loop trace =>
      exact tallied.settle (congrArg Phase.stage observing) loop trace rfl rfl rfl rfl rfl rfl rfl
  | countedType loop typed trace =>
      exact tallied.settle loop typed trace rfl rfl rfl rfl rfl rfl rfl
  | rotated loop still trace =>
      exact tallied.advance loop still trace rfl rfl rfl rfl rfl rfl rfl
  | wrote typed loop trace =>
      exact tallied.advance typed loop trace rfl rfl rfl rfl rfl rfl rfl
  | missing loop checked exiting => exact absurd (congrArg Phase.stage exiting) running
  | undecodable loop exiting => exact absurd (congrArg Phase.stage exiting) running
  | writeFailed typed exiting => exact absurd (congrArg Phase.stage exiting) running
  | closed loop exiting => exact absurd (congrArg Phase.stage exiting) running
  | left within returned => exact absurd (congrArg Phase.stage returned) running

/-- Past its loops a run changes nothing anymore. -/
theorem meters_gone (gone : s.phase.stage = .gone) (meters : Meters alloy s a input t b) :
    t.phase.stage = .gone ∧ t.phase.result? = s.phase.result? ∧ t.trace = s.trace ∧ b = a := by
  cases meters with
  | steady stage result trace => exact ⟨stage.trans gone, result, trace, rfl⟩
  | subscribed outside => cases outside.symm.trans gone
  | ended loop => cases loop.symm.trans gone
  | took loop => cases loop.symm.trans gone
  | missing loop => cases loop.symm.trans gone
  | counted observing => cases (congrArg Phase.stage observing).symm.trans gone
  | countedType loop => cases loop.symm.trans gone
  | rotated loop => cases loop.symm.trans gone
  | undecodable loop => cases loop.symm.trans gone
  | wrote typed => cases typed.symm.trans gone
  | writeFailed typed => cases typed.symm.trans gone
  | closed loop => cases loop.symm.trans gone
  | left within =>
      rcases within with outside | loop
      · cases outside.symm.trans gone
      · cases loop.symm.trans gone

end Tally

inductive Cause where
  | metadata
  | decode
  | write
  deriving DecidableEq

/-- How often metadata was missing, a decoding failed and a write failed. -/
def Cause.errors : Cause → Nat × Nat × Nat
  | .metadata => (1, 0, 0)
  | .decode => (0, 1, 0)
  | .write => (0, 0, 1)

section Run

variable {σ ω : Type} [EventSink σ ω] {config : FrontfillConfig} {alloy : Alloy}
  {s t : State σ ω} {m : FrontfillMetrics}

/-- The steps with which a run fails for a log: what it lacks, its decoding, with or without a
rotation before it, or its write. -/
inductive FailsBy (alloy : Alloy) (s : State σ ω) : Input ω → Cause → Prop where
  | metadata {listener : Option Bool} {log : Log} {error : String}
      (selecting : s.phase = .selecting listener) (checked : checkMetadata alloy log = .error error) :
      FailsBy alloy s (.next (some log)) .metadata
  | decode {taken : Taken} {error : String} (locking : s.phase = .locking taken)
      (early : ∀ target, s.nextRotationBlock = some target → ¬target ≤ taken.blockNumber)
      (failed : decodeLog alloy taken.log = .error error) : FailsBy alloy s .lock .decode
  | decodeRotated {taken : Taken} {error : String} {io : ω} {sink : σ}
      (rotating : s.phase = .rotating taken)
      (call : (EventSink.rotate io).run s.sink = (.ok (), sink))
      (failed : decodeLog alloy taken.log = .error error) : FailsBy alloy s (.sink io) .decode
  | write {taken : Taken} {decoded : DecodedEvent} {error : String} {io : ω} {sink : σ}
      (writing : s.phase = .writing taken decoded)
      (call : (EventSink.writeEvent io (taken.call decoded)).run s.sink = (.error error, sink)) :
      FailsBy alloy s (.sink io) .write

/-- The ledger of a run that failed: one error, and every log counted but one without its
metadata. -/
structure Failed (cause : Cause) (s : State σ ω) (a : Ledger) : Prop where
  missingMetadata : a.missingMetadata = if cause = .metadata then 1 else 0
  decodeErrors : a.decodeErrors = if cause = .decode then 1 else 0
  writeErrors : a.writeErrors = if cause = .write then 1 else 0
  logs : a.logs + (if cause = .metadata then 1 else 0) = s.received.length
  ended : ∃ error, s.phase = .exiting (.error error) ∨ s.phase = .returned (.error error)

omit [EventSink σ ω] in
theorem fail_metrics (metrics : s.metrics = some m) (count : FrontfillMetrics → FrontfillMetrics)
    (error : String) :
    (s.fail count error).metrics = some { count m with wsConnected := false } ∧
      (s.fail count error).phase = .exiting (.error error) := by
  simp [State.fail, metrics]

omit [EventSink σ ω] in
/-- A log that is not decoded: the run fails once it has tried. -/
theorem decode_failed {u : State σ ω} {taken : Taken} {error : String} (tallied : Tallied s m.ledger)
    (loop : s.phase.stage = .loop) (received : u.received = s.received)
    (metrics : ∃ n, u.metrics = some n ∧ n.ledger.logs = m.ledger.logs ∧
      n.ledger.missingMetadata = 0 ∧ n.ledger.decodeErrors = 0 ∧ n.ledger.writeErrors = 0)
    (failed : decodeLog alloy taken.log = .error error) :
    ∃ n, (u.decode alloy taken).metrics = some n ∧ Failed .decode (u.decode alloy taken) n.ledger := by
  obtain ⟨n, metrics, logs, missing, decodes, writes⟩ := metrics
  have decided : u.decode alloy taken = u.fail countDecodeError error := by
    rw [State.decode, failed]
  obtain ⟨metrics', exiting⟩ := fail_metrics metrics countDecodeError error
  have counted := tallied.logs
  rw [loop] at counted
  rw [decided]
  refine ⟨_, metrics', missing, ?_, writes, ?_, error, .inl exiting⟩
  · exact congrArg (· + 1) decodes
  · exact (congrArg (· + 0) logs).trans (counted.trans (congrArg List.length received.symm))

theorem failsBy_failed {input : Input ω} {cause : Cause} (metrics : s.metrics = some m)
    (tallied : Tallied s m.ledger) (fails : FailsBy alloy s input cause)
    (moved : step config alloy s input = some t) :
    ∃ n, t.metrics = some n ∧ Failed cause t n.ledger := by
  cases fails with
  | @metadata listener log error selecting checked =>
      have taken : t = (s.note (.received log)).fail countMissingMetadata error := by
        simp only [step, selectStep, selecting, State.take, checked, Option.some.injEq] at moved
        exact moved.symm
      obtain ⟨metrics', exiting⟩ := @fail_metrics _ _ (s.note (.received log)) m metrics
        countMissingMetadata error
      have counted := tallied.logs
      rw [selecting] at counted
      subst taken
      refine ⟨_, metrics', ?_, tallied.decodeErrors, tallied.writeErrors, ?_, error, .inl exiting⟩
      · exact congrArg (· + 1) tallied.missingMetadata
      · have received : ((s.note (.received log)).fail countMissingMetadata error).received =
            s.received ++ [log] := by
          simp [State.received, Effect.log?]
        rw [received, List.length_append, ← counted]
        rfl
  | @decode taken error locking early failed =>
      have loop : s.phase.stage = .loop := by rw [locking]; rfl
      have clean : ∃ n, s.metrics = some n ∧ n.ledger.logs = m.ledger.logs ∧
          n.ledger.missingMetadata = 0 ∧ n.ledger.decodeErrors = 0 ∧ n.ledger.writeErrors = 0 :=
        ⟨m, metrics, rfl, tallied.missingMetadata, tallied.decodeErrors, tallied.writeErrors⟩
      simp only [step, processStep, locking] at moved
      cases due : s.nextRotationBlock with
      | none =>
          simp only [due, Option.some.injEq] at moved
          subst moved
          exact decode_failed tallied loop rfl clean failed
      | some target =>
          simp only [due, early target due, if_false, Option.some.injEq] at moved
          subst moved
          exact decode_failed tallied loop rfl clean failed
  | @decodeRotated taken error io sink rotating call failed =>
      have loop : s.phase.stage = .loop := by rw [rotating]; rfl
      simp only [step, processStep, sinkStep, rotating, call, Option.some.injEq] at moved
      subst moved
      refine decode_failed tallied loop ?_ ⟨countRotation m, ?_, rfl, tallied.missingMetadata,
        tallied.decodeErrors, tallied.writeErrors⟩ failed
      · simp [State.received, State.openWindow, Effect.log?]
      · exact @measured _ _ ({ s with sink := sink }.note (.rotated io)) m metrics countRotation
  | @write taken decoded error io sink writing call =>
      simp only [step, processStep, sinkStep, writing, call, Option.some.injEq] at moved
      have observed := @measured _ _ ({ s with sink := sink }.note (.sinkFailed error)) m metrics
        observeDuration
      obtain ⟨metrics', exiting⟩ := fail_metrics observed countWriteError error
      have counted := tallied.logs
      rw [writing] at counted
      subst moved
      refine ⟨_, metrics', tallied.missingMetadata, tallied.decodeErrors, ?_, ?_, error,
        .inl exiting⟩
      · exact congrArg (· + 1) tallied.writeErrors
      · refine counted.trans (congrArg List.length ?_)
        simp [State.received, Effect.log?]

omit [EventSink σ ω] in
theorem launch_metrics {storage : Except String σ} (enabled : config.metricsEnabled = true)
    (start : launch config storage (.ok FrontfillMetrics.register) = .ok s) :
    s.metrics = some FrontfillMetrics.register := by
  unfold launch at start
  by_cases zero : config.flushBlocks = 0
  · rw [if_pos zero] at start
    cases start
  · rw [if_neg zero, metricsRuntime, if_pos enabled] at start
    simp only [bind, Except.bind, pure, Except.pure] at start
    split at start
    · cases start
    · obtain rfl := Except.ok.inj start
      rfl

/-- Until a run is past its loops, its metrics are tallied. -/
theorem run_tallied {storage : Except String σ} {inputs : List (Input ω)}
    (enabled : config.metricsEnabled = true)
    (start : launch config storage (.ok FrontfillMetrics.register) = .ok s)
    (run : Machine.exec (step config alloy) s inputs = some t) :
    ∃ m, t.metrics = some m ∧ (t.phase.stage ≠ .gone → Tallied t m.ledger) := by
  obtain ⟨-, -, phase, trace, -⟩ := launch_start start
  have first : Tallied s FrontfillMetrics.register.ledger := by
    refine ⟨?_, ?_, ?_, ?_, rfl, rfl, rfl⟩
    · rw [phase, State.received, trace]
      rfl
    · rw [phase, State.written, trace]
      rfl
    · rw [State.written, trace]
      rfl
    · rw [State.rotations, trace]
      rfl
  have keeps : ∀ (a : State σ ω) (input : Input ω) (b : State σ ω), True →
      (∃ m, a.metrics = some m ∧ (a.phase.stage ≠ .gone → Tallied a m.ledger)) →
      step config alloy a input = some b →
      ∃ m, b.metrics = some m ∧ (b.phase.stage ≠ .gone → Tallied b m.ledger) := by
    rintro a input b - ⟨m, metrics, tallied⟩ moved
    obtain ⟨m', metrics', meters⟩ := step_meters metrics moved
    refine ⟨m', metrics', fun running => ?_⟩
    have before : a.phase.stage ≠ .gone := fun gone => running (meters_gone gone meters).1
    exact meters_tallied (tallied before) running meters
  exact Machine.exec_invariant _ keeps (fun _ _ => trivial) run
    ⟨_, launch_metrics enabled start, fun _ => first⟩

theorem result_error_iff {phase : Phase} {error : String} :
    phase.result? = some (.error error) ↔
      phase = .exiting (.error error) ∨ phase = .returned (.error error) := by
  cases phase <;> simp [Phase.result?]

theorem stage_of_result {phase : Phase} {result : Except String Unit}
    (ended : phase.result? = some result) : phase.stage = .gone := by
  cases phase with
  | exiting | returned => rfl
  | _ => cases ended

/-- A run that failed stays as it is. -/
theorem run_failed {inputs : List (Input ω)} {cause : Cause}
    (failed : ∃ n, s.metrics = some n ∧ Failed cause s n.ledger)
    (run : Machine.exec (step config alloy) s inputs = some t) :
    ∃ n, t.metrics = some n ∧ Failed cause t n.ledger := by
  have keeps : ∀ (a : State σ ω) (input : Input ω) (b : State σ ω), True →
      (∃ n, a.metrics = some n ∧ Failed cause a n.ledger) → step config alloy a input = some b →
      ∃ n, b.metrics = some n ∧ Failed cause b n.ledger := by
    rintro a input b - ⟨n, metrics, failed⟩ moved
    obtain ⟨n', metrics', meters⟩ := step_meters metrics moved
    obtain ⟨error, phase⟩ := failed.ended
    have result := result_error_iff.mpr phase
    obtain ⟨-, result', trace, same⟩ := meters_gone (stage_of_result result) meters
    refine ⟨n', metrics', same ▸ ⟨failed.missingMetadata, failed.decodeErrors,
      failed.writeErrors, ?_, error, result_error_iff.mp (result'.trans result)⟩⟩
    rw [failed.logs, State.received, State.received, trace]
  exact Machine.exec_invariant _ keeps (fun _ _ => trivial) run failed

end Run

section Live

variable {config : FrontfillConfig} {alloy : Alloy} {disk : Disk} {s t : LiveState}

theorem rotations_sinkCalls (s : LiveState) :
    ParquetStorage.rotations s.sinkCalls = s.rotations := by
  rw [ParquetStorage.rotations, State.sinkCalls, State.rotations, List.countP_filterMap]
  congr 1
  funext effect
  cases effect <;> rfl

/-- The file set of a run that goes on is the number of its rotations, up to the largest. -/
theorem run_fileSetId {runtime : Except String FrontfillMetrics}
    {inputs : List (Input ParquetIo)}
    (start : launch config (.ok (freshOn disk)) runtime = .ok s)
    (run : Machine.exec (step config alloy) s inputs = some t)
    (running : t.phase.result? = none) :
    t.sink.storage.fileSetId.toNat = min t.rotations U64.max.toNat := by
  have recorded := perform_fileSetId (run_recorded start run (.inl running))
  rw [recorded, rotations_sinkCalls]
  exact congrArg (min · _) (Nat.zero_add _)

/-- At the head of the inner loop the counters account for every log, and a run that fails for
a log has counted that failure and no other. -/
theorem metrics_account (enabled : config.metricsEnabled = true)
    (start : launch config (.ok (freshOn disk)) (.ok FrontfillMetrics.register) = .ok s) :
    (∀ inputs t listener, Machine.exec (step config alloy) s inputs = some t →
      t.phase = .selecting listener →
      ∃ m, t.metrics = some m ∧ m.logsTotal = t.received.length ∧
        m.logsTotal = total m.logsByTypeTotal + t.received.countP (ignores alloy) ∧
        total m.logsByTypeTotal = t.written.length ∧ m.sinkWriteSeconds = t.written.length ∧
        (t.sink.storage.fileSetId < U64.max →
          m.rotateTotal = t.sink.storage.fileSetId.toNat) ∧
        m.missingMetadataTotal = 0 ∧ m.decodeErrorsTotal = 0 ∧ m.writeErrorsTotal = 0) ∧
    ∀ before input after u t cause, Machine.exec (step config alloy) s before = some u →
      FailsBy alloy u input cause →
      Machine.exec (step config alloy) u (input :: after) = some t →
      ∃ m, t.metrics = some m ∧
        (m.missingMetadataTotal, m.decodeErrorsTotal, m.writeErrorsTotal) = cause.errors ∧
        m.logsTotal + (if cause = .metadata then 1 else 0) = t.received.length ∧
        ∃ error, t.phase = .exiting (.error error) ∨ t.phase = .returned (.error error) := by
  constructor
  · intro inputs t listener run selecting
    obtain ⟨m, metrics, tallied⟩ := run_tallied enabled start run
    have counted := tallied (by rw [selecting]; nofun)
    have logs := counted.logs
    have types := counted.types
    rw [selecting] at logs types
    have free : t.phase.inHand = none := by rw [selecting]; rfl
    have running : t.phase.result? = none := by rw [selecting]; rfl
    have fed := fed_length ((run_ingested start run).free free (.inl running))
    have logs : m.logsTotal = t.received.length := logs
    have types : total m.logsByTypeTotal = t.written.length := types
    refine ⟨m, metrics, logs, by omega, types, counted.writes, fun room => ?_,
      counted.missingMetadata, counted.decodeErrors, counted.writeErrors⟩
    have set := run_fileSetId start run running
    have below := UInt64.lt_iff_toNat_lt.mp room
    exact counted.rotations.trans (by omega)
  · intro before input after u t cause reached fails run
    obtain ⟨m, metrics, tallied⟩ := run_tallied enabled start reached
    obtain ⟨v, moved, later⟩ := (Machine.exec_cons _).mp run
    have running : u.phase.stage ≠ .gone := by
      cases fails with
      | metadata selecting => rw [selecting]; nofun
      | decode locking => rw [locking]; nofun
      | decodeRotated rotating => rw [rotating]; nofun
      | write writing => rw [writing]; nofun
    obtain ⟨n, metrics', failed⟩ := run_failed
      (failsBy_failed metrics (tallied running) fails moved) later
    refine ⟨n, metrics', ?_, failed.logs, failed.ended⟩
    have missing := failed.missingMetadata
    have decodes := failed.decodeErrors
    have writes := failed.writeErrors
    cases cause <;> exact Prod.ext missing (Prod.ext decodes writes)

end Live

section Example

def measuredConfig : FrontfillConfig := { liveConfig with metricsEnabled := true }

def measuredStart : LiveState := { liveStart with metrics := some FrontfillMetrics.register }

theorem measuredStart_launched :
    launch measuredConfig (.ok (freshOn Disk.empty)) (.ok FrontfillMetrics.register) =
      .ok measuredStart := rfl

/-- The run with metrics once it has its stream. -/
def measuredListening : LiveState :=
  { measuredStart with
    phase := .selecting none
    metrics := some { FrontfillMetrics.register with wsConnected := true } }

theorem measured_connecting (inputs : List (Input ParquetIo)) :
    Machine.exec (step measuredConfig Reference.alloy) measuredStart (connecting ++ inputs) =
      Machine.exec (step measuredConfig Reference.alloy) measuredListening inputs := by
  obtain ⟨filter, filters⟩ := buildFilter_ok Reference.addresses_parse measuredConfig.startBlock
  have connects : buildWsConnect measuredConfig = .ok _ := rfl
  simp only [connecting, List.cons_append, List.nil_append, Machine.exec, step, reconnectStep,
    measuredStart, liveStart, connects, filters, Option.bind_some]
  rfl

/-- A log on its way to its file, with what is observed of it. -/
def measuring (log : Log) (unixSeconds : UInt64) : List (Input ParquetIo) :=
  [.next (some log), .observe unixSeconds, .record 1 1, .lock, .observe unixSeconds, .record 2 2,
    .sink sinkOk]

/-- One log is counted; the next one lacks its block number. -/
theorem metrics_account_measured : ∃ t v m n,
    Machine.exec (step measuredConfig Reference.alloy) measuredStart
      (connecting ++ measuring (cancelled 10 0) 7) = some t ∧
    t.metrics = some m ∧ m.logsTotal = 1 ∧ total m.logsByTypeTotal = 1 ∧ m.rotateTotal = 0 ∧
    Machine.exec (step measuredConfig Reference.alloy) t
      [.next (some { cancelled 11 0 with blockNumber := none })] = some v ∧
    v.metrics = some n ∧ n.missingMetadataTotal = 1 ∧ n.logsTotal + 1 = 2 := by
  have returns : (Machine.exec (step measuredConfig Reference.alloy) measuredStart
      (connecting ++ measuring (cancelled 10 0) 7)).isSome := by
    rw [measured_connecting]
    rfl
  obtain ⟨t, run⟩ := Option.isSome_iff_exists.mp returns
  have heard := run
  rw [measured_connecting] at heard
  have phase : t.phase = .selecting none := seen State.phase heard rfl
  have received : t.received.length = 1 := seen (fun t => t.received.length) heard rfl
  have written : t.written.length = 1 := seen (fun t => t.written.length) heard rfl
  have set : t.sink.storage.fileSetId = 0 := seen (fun t => t.sink.storage.fileSetId) heard rfl
  obtain ⟨account, failing⟩ := @metrics_account _ Reference.alloy _ _ rfl measuredStart_launched
  obtain ⟨m, metrics, logs, -, types, -, rotations, -⟩ := account _ t none run phase
  have fails : FailsBy Reference.alloy t
      (.next (some { cancelled 11 0 with blockNumber := none })) .metadata := .metadata phase rfl
  have last : Machine.exec (step measuredConfig Reference.alloy) t
      [.next (some { cancelled 11 0 with blockNumber := none })] =
        some (t.take Reference.alloy { cancelled 11 0 with blockNumber := none }) := by
    simp [Machine.exec, step, selectStep, phase]
  obtain ⟨n, metrics', errors, logs', -⟩ := failing _ _ [] t _ .metadata run fails last
  have more : (t.take Reference.alloy { cancelled 11 0 with blockNumber := none }).received.length =
      2 := by
    rw [State.received, take_trace, List.filterMap_append, List.length_append]
    exact congrArg (· + 1) received
  refine ⟨t, _, m, n, run, metrics, logs.trans received, types.trans written, ?_, last, metrics',
    congrArg Prod.fst errors, logs'.trans more⟩
  rw [set] at rotations
  exact rotations (by decide)

end Example

end PolymarketIndexer.Frontfill
