import PolymarketIndexer.Frontfill.History

/-! # What is readable when a live run returns

A row is durable once its writer was closed successfully. Only the shutdown closes the
writers on the way out: every error leaves the loops at once. Since an open
writer always holds an accepted row, an error loses rows exactly when it finds a writer
open.
-/

namespace PolymarketIndexer.Frontfill

open ParquetStorage SegmentedLog

/-- Every accepted row is in a file whose writer was closed successfully. -/
def Durable (s : LiveState) : Prop :=
  ∀ E, (closedFor E s.sink).flatMap ArrowWriter.rows = s.accepted E

def NoWriter (sink : ParquetSink) : Prop := ∀ E, sink.storage.writers.lookup E = none

/-- The inputs that end the run with an error: no connection can be built, no listener
registered, a log lacks metadata, a log in hand does not decode and no rotation comes
before it, or its write fails. -/
def EndsInError (config : FrontfillConfig) (alloy : Alloy) (s : LiveState) :
    Input ParquetIo → Prop
  | .connect => ∃ error, buildWsConnect config = .error error
  | .connected (.ok _) => ∃ error, buildFilter alloy.addressFromStr config.startBlock = .error error
  | .pollCtrlC (.error _) => True
  | .next (some log) => ∃ error, checkMetadata alloy log = .error error
  | .lock => ∃ taken error, s.phase = .locking taken ∧
      (∀ target, s.nextRotationBlock = some target → ¬target ≤ taken.blockNumber) ∧
      decodeLog alloy taken.log = .error error
  | .sink io => ∃ taken decoded error sink, s.phase = .writing taken decoded ∧
      (writeEvent io.write (taken.call decoded)).run s.sink = (.error error, sink)
  | _ => False

/-- Closing a writer succeeds whenever it is tried. -/
def Closes : Input ParquetIo → Prop
  | .sink io => ∀ E, io.close.close E = .ok ()
  | _ => True

section Rows

variable {disk : Disk} {s : LiveState}

theorem closed_rows (recorded : (perform s.sinkCalls).run (freshOn disk) = (.ok (), s.sink))
    {io : CloseIo} {v : ParquetSink} (call : (closeWriters io).run s.sink = (.ok (), v)) (E : String) :
    (closedFor E v).flatMap ArrowWriter.rows = s.accepted E := by
  obtain ⟨keyed, -⟩ := recorded_segments recorded E
  obtain ⟨closed, -, -⟩ := closed_for keyed call E
  rw [closed, held_written recorded, writtenRows_calls]

/-- An error finds everything durable exactly when it finds no writer open. -/
theorem durable_iff (recorded : (perform s.sinkCalls).run (freshOn disk) = (.ok (), s.sink)) :
    Durable s ↔ NoWriter s.sink := by
  constructor
  · intro durable E
    obtain ⟨-, contents, filled⟩ := recorded_segments recorded E
    rw [← durable E, SegmentedLog.contents, List.flatMap_def] at contents
    cases found : s.sink.storage.writers.lookup E with
    | none => rfl
    | some writer =>
        have rows : writer.rows = [] := by
          simpa [segments, found] using contents
        have member : writer.rows ∈ (segments E s.sink).finished ++
            (segments E s.sink).current.toList := by
          simp [segments, found]
        exact absurd rows (filled _ member)
  · intro shut E
    obtain ⟨-, contents, -⟩ := recorded_segments recorded E
    rw [← contents, SegmentedLog.contents, List.flatMap_def]
    simp [segments, shut E]

end Rows

section Steps

variable {config : FrontfillConfig} {alloy : Alloy} {disk : Disk} {s t : LiveState}
  {input : Input ParquetIo}

/-- An ending error closes nothing. -/
theorem ends_step (ends : EndsInError config alloy s input)
    (moved : step config alloy s input = some t) :
    s.phase.result? = none ∧ (∃ error, t.phase.result? = some (.error error)) ∧
      t.sink.closed = s.sink.closed ∧ t.written = s.written := by
  cases input with
  | connect =>
      obtain ⟨error, built⟩ := ends
      simp only [step, reconnectStep, built] at moved
      split at moved
      · rename_i starting _
        obtain rfl := Option.some.inj moved
        exact ⟨by rw [starting]; rfl, ⟨_, rfl⟩, rfl, by simp [State.written, Effect.call?]⟩
      · rename_i impossible
        cases impossible
      · cases moved
  | connected result =>
      cases result with
      | error e => exact ends.elim
      | ok value =>
          obtain ⟨error, built⟩ := ends
          simp only [step, reconnectStep, built] at moved
          split at moved
          · rename_i impossible
            cases impossible
          · rename_i connecting _ _
            obtain rfl := Option.some.inj moved
            exact ⟨by rw [connecting]; rfl, ⟨_, rfl⟩, rfl, by simp [State.written, Effect.call?]⟩
          · rename_i impossible
            cases impossible
          · cases moved
  | pollCtrlC result =>
      cases result with
      | ok value => exact ends.elim
      | error error =>
          simp only [step, selectStep] at moved
          split at moved
          · rename_i selecting _
            obtain rfl := Option.some.inj moved
            exact ⟨by rw [selecting]; rfl, ⟨_, rfl⟩, rfl, by simp [State.written, Effect.call?]⟩
          · rename_i impossible
            cases impossible
          · cases moved
  | next log? =>
      cases log? with
      | none => exact ends.elim
      | some log =>
          obtain ⟨error, checked⟩ := ends
          simp only [step, selectStep] at moved
          split at moved
          · rename_i selecting same
            obtain rfl := Option.some.inj same
            obtain rfl := Option.some.inj moved
            refine ⟨by rw [selecting]; rfl, ?_, by rw [take_sink], by
              simp [State.written, Effect.call?]⟩
            rcases @take_decides _ _ alloy s log with ⟨error', -, -, result⟩ | ⟨taken, checked', -⟩
            · exact ⟨error', result⟩
            · cases checked.symm.trans checked'
          · rename_i impossible
            cases impossible
          · cases moved
  | lock =>
      obtain ⟨taken, error, locking, early, failed⟩ := ends
      cases due : s.nextRotationBlock with
      | some target =>
          simp only [step, processStep, locking, due, if_neg (early target due)] at moved
          obtain rfl := Option.some.inj moved
          refine ⟨by rw [locking]; rfl, ?_, by rw [decode_sink], by simp [State.written]⟩
          rcases @decode_decides _ _ alloy s taken with ⟨error', -, -, result⟩ | ⟨other, -⟩ |
            ⟨_, other, -⟩
          · exact ⟨error', result⟩
          · cases failed.symm.trans other
          · cases failed.symm.trans other
      | none =>
          simp only [step, processStep, locking, due] at moved
          obtain rfl := Option.some.inj moved
          refine ⟨by rw [locking]; rfl, ?_, by rw [decode_sink]; rfl, by simp [State.written]; rfl⟩
          rcases @decode_decides _ _ alloy (s.openWindow config taken) taken with
            ⟨error', -, -, result⟩ | ⟨other, -⟩ | ⟨_, other, -⟩
          · exact ⟨error', result⟩
          · cases failed.symm.trans other
          · cases failed.symm.trans other
  | sink io =>
      obtain ⟨taken, decoded, error, sink, writing, failed⟩ := ends
      have failed' : (EventSink.writeEvent io (taken.call decoded)).run s.sink =
          (.error error, sink) := failed
      simp only [step, processStep, sinkStep, writing, failed'] at moved
      obtain rfl := Option.some.inj moved
      have closed : sink.closed = s.sink.closed := by
        rcases writeEvent_failed failed with ⟨-, rfl⟩ | abandoned
        · rfl
        · exact abandoned.closed
      exact ⟨by rw [writing]; rfl, ⟨_, fail_result _ _ _⟩, closed, by
        simp [State.written, Effect.call?]⟩
  | _ => exact ends.elim

/-- No other step ends the run with a row that is not durable. -/
theorem other_ends (recorded : Recorded disk s) (closes : Closes input)
    (good : (∃ result, s.phase.result? = some result) → Durable s)
    (other : ¬EndsInError config alloy s input) (moved : step config alloy s input = some t)
    (left : ∃ result, t.phase.result? = some result) : Durable t := by
  cases step_moves moved with
  | quiet sink trace inHand result subscribing =>
      rw [result] at left
      have durable := good left
      unfold Durable State.accepted State.written at durable ⊢
      rw [sink, trace]
      exact durable
  | refused free running why =>
      exfalso
      apply other
      rcases why with rfl | ⟨rfl, failed⟩ | ⟨rfl, failed⟩
      · trivial
      · exact ⟨_, failed⟩
      · exact ⟨_, failed⟩
  | @took _ log selecting =>
      rcases @take_decides _ _ alloy s log with ⟨error, checked, -, -⟩ | ⟨taken, -, -, running⟩
      · exact absurd ⟨error, checked⟩ other
      · rw [running] at left
        obtain ⟨_, impossible⟩ := left
        cases impossible
  | @decided u taken locking early sink trace =>
      rcases @decode_decides _ _ alloy u taken with ⟨error, failed, -, -⟩ | ⟨-, selecting⟩ |
        ⟨_, -, -, running⟩
      · exact absurd ⟨taken, error, locking, early, failed⟩ other
      · rw [selecting] at left
        obtain ⟨_, impossible⟩ := left
        cases impossible
      · rw [running] at left
        obtain ⟨_, impossible⟩ := left
        cases impossible
  | @rotated u taken io rotating call trace =>
      intro E
      have history := recorded (.inl (by rw [rotating]; rfl))
      obtain ⟨v, closed, same⟩ := rotateWriters_ok call
      have rows := closed_rows history closed E
      have kept : (u.decode alloy taken).accepted E = s.accepted E := by
        simp [State.accepted, State.written, trace, Effect.call?]
      rw [kept, ← rows, decode_sink, same]
      rfl
  | @rotateFailed sink taken io error rotating call =>
      obtain ⟨v, closed⟩ := closeWriters_total closes s.sink
      have call : (rotateWriters io.close).run s.sink = (.error error, sink) := call
      rw [rotateWriters, Attempt.run_bind_ok closed] at call
      cases call
  | wrote writing call trace selecting =>
      rw [selecting] at left
      obtain ⟨_, impossible⟩ := left
      cases impossible
  | @writeFailed _ taken decoded io error writing call trace free result =>
      exact absurd ⟨taken, decoded, error, t.sink, writing, call⟩ other
  | @closed _ io closing call trace free result =>
      intro E
      have history := recorded (.inl (by rw [closing]; rfl))
      have kept : t.accepted E = s.accepted E := by
        simp [State.accepted, State.written, trace, Effect.call?]
      rw [kept]
      exact closed_rows history call E
  | @closeFailed sink io error closing call =>
      obtain ⟨v, closed⟩ := closeWriters_total closes s.sink
      have call : (closeWriters io.close).run s.sink = (.error error, sink) := call
      cases closed.symm.trans call

/-- A step leads out with everything durable exactly when it is no error over open writers. -/
theorem step_durable (closes : Closes input) (recorded : Recorded disk s)
    (good : (∃ result, s.phase.result? = some result) → Durable s)
    (moved : step config alloy s input = some t) :
    ((∃ result, t.phase.result? = some result) → Durable t) ↔
      (EndsInError config alloy s input → NoWriter s.sink) := by
  by_cases ends : EndsInError config alloy s input
  · obtain ⟨running, ⟨error, left⟩, closed, written⟩ := ends_step ends moved
    have same : Durable t ↔ Durable s := by
      simp only [Durable, closedFor, State.accepted, closed, written]
    rw [← durable_iff (recorded (.inl running)), ← same]
    exact ⟨fun durable _ => durable ⟨_, left⟩, fun shut _ => shut ends⟩
  · constructor
    · exact fun _ impossible => absurd impossible ends
    · exact fun _ left => other_ends recorded closes good ends moved left

end Steps

/-- When closing a writer always succeeds, a run leaves with every accepted row durable exactly
when no step ends it with an error while a writer is open. -/
theorem durable_on_exit_iff {config : FrontfillConfig} {alloy : Alloy} {disk : Disk}
    {runtime : Except String FrontfillMetrics} {s t : LiveState} {inputs : List (Input ParquetIo)}
    (start : launch config (.ok (freshOn disk)) runtime = .ok s)
    (run : Machine.exec (step config alloy) s inputs = some t)
    (closes : ∀ input ∈ inputs, Closes input) :
    (∀ u, Machine.Visits (step config alloy) s inputs u →
      (∃ result, u.phase.result? = some result) → Durable u) ↔
    ∀ u input, Machine.Takes (step config alloy) s inputs u input →
      EndsInError config alloy u input → NoWriter u.sink := by
  obtain ⟨-, -, phase, -⟩ := launch_start start
  have running : (∃ result, s.phase.result? = some result) → Durable s := by
    rintro ⟨_, impossible⟩
    rw [phase] at impossible
    cases impossible
  have keeps : ∀ (a : LiveState) (i : Input ParquetIo) (b : LiveState), Closes i →
      Recorded disk a → step config alloy a i = some b → Recorded disk b :=
    fun _ _ _ _ before moved => step_recorded before moved
  exact Machine.always_iff _ keeps
    (fun _ _ _ closes recorded good moved => step_durable closes recorded good moved)
    closes run (launch_recorded start) running

section Example

def writing : List (Input ParquetIo) := connecting ++ ingesting (cancelled 10 0)

theorem closes_writing : ∀ input ∈ writing, Closes input := by
  simp [writing, connecting, ingesting, Closes, sinkOk, ParquetStorage.closesOk]

theorem closes_stopping : ∀ input ∈ stopping, Closes input := by
  simp [stopping, Closes, sinkOk, ParquetStorage.closesOk]

theorem durable_on_exit_writing : ∃ t, live (writing ++ stopping) = some t ∧
    ((∀ u, Machine.Visits (step liveConfig Reference.alloy) liveStart (writing ++ stopping) u →
        (∃ result, u.phase.result? = some result) → Durable u) ↔
      ∀ u input, Machine.Takes (step liveConfig Reference.alloy) liveStart (writing ++ stopping) u
        input → EndsInError liveConfig Reference.alloy u input → NoWriter u.sink) := by
  have returns : (live (writing ++ stopping)).isSome := by
    rw [writing, List.append_assoc, live_connecting]
    rfl
  obtain ⟨t, run⟩ := Option.isSome_iff_exists.mp returns
  refine ⟨t, run, @durable_on_exit_iff _ _ Disk.empty _ _ _ _ liveStart_launched run ?_⟩
  exact List.forall_mem_append.mpr ⟨closes_writing, closes_stopping⟩

/-- A log is written; the next one lacks its block number and the run returns. -/
def losing : List (Input ParquetIo) :=
  writing ++ [.next (some { cancelled 11 0 with blockNumber := none })]

theorem losing_not_durable : ∃ t error, live losing = some t ∧ (∀ input ∈ losing, Closes input) ∧
    t.phase = .returned (.error error) ∧ ¬Durable t := by
  have returns : (live losing).isSome := by
    rw [losing, writing, List.append_assoc, live_connecting]
    rfl
  obtain ⟨t, run⟩ := Option.isSome_iff_exists.mp returns
  have heard := run
  rw [losing, writing, List.append_assoc, live_connecting] at heard
  have phase : t.phase = .returned (.error "frontfill received log missing block_number") :=
    seen State.phase heard rfl
  have accepted : (t.accepted "OrderCancelled").length = 1 :=
    seen (fun t => (t.accepted "OrderCancelled").length) heard rfl
  have closed : t.sink.closed = [] := seen (fun t => t.sink.closed) heard rfl
  refine ⟨t, _, run, ?_, phase, ?_⟩
  · intro input member
    rcases List.mem_append.mp member with early | late
    · exact closes_writing input early
    · obtain rfl := List.mem_singleton.mp late
      trivial
  · intro durable
    rw [← durable, closedFor, closed] at accepted
    cases accepted

end Example

end PolymarketIndexer.Frontfill
