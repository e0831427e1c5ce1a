import PolymarketIndexer.Frontfill.Sinks

/-! # A run that nothing harms

Nothing but a bad log, a failure of the outside or an unusable configuration ends a run
with an error: with every file operation succeeding the Parquet sink rejects no call.
So a run over good logs can only end by the shutdown.
-/

namespace PolymarketIndexer.Frontfill

open Feed ParquetStorage

/-- An input that harms nothing: the signal can be listened for and every file operation succeeds.
Connections may fail. -/
def Harmless : Input ParquetIo → Prop
  | .pollCtrlC (.error _) => False
  | .sink io => WriteIo.Succeeds io.write ∧ ∀ E, io.close.close E = .ok ()
  | _ => True

/-- A connection and a filter can be built from the configuration. -/
def Usable (config : FrontfillConfig) (alloy : Alloy) : Prop :=
  (∃ ws, buildWsConnect config = .ok ws) ∧
    ∃ filter, buildFilter alloy.addressFromStr config.startBlock = .ok filter

theorem typed_kept : Kept ParquetSink Typed where
  write _ _ _ _ event before done := (writeEvent_ok done).typed event before
  rotate _ _ _ before done := rotated_typed done before
  close _ _ _ before done := closed_typed done before

def Unharmed {σ ω : Type} (s : State σ ω) : Prop :=
  ∀ error, .sinkFailed error ∉ s.trace ∧ .refused error ∉ s.trace

section Steps

variable {config : FrontfillConfig} {alloy : Alloy} {s t : State ParquetSink ParquetIo}

theorem sound_trace {effects : List (Effect ParquetIo)} (sound : Unharmed s)
    (trace : t.trace = s.trace ++ effects)
    (fine : ∀ error, .sinkFailed error ∉ effects ∧ .refused error ∉ effects) : Unharmed t := by
  intro error
  rw [trace]
  constructor
  · intro member
    rcases List.mem_append.mp member with before | now
    · exact (sound error).1 before
    · exact (fine error).1 now
  · intro member
    rcases List.mem_append.mp member with before | now
    · exact (sound error).2 before
    · exact (fine error).2 now

theorem not_both {call : Attempt ParquetSink Unit} {sink u : ParquetSink} {error : String}
    (succeeds : ∃ v, call.run sink = (.ok (), v)) (failed : call.run sink = (.error error, u)) :
    False := by
  obtain ⟨v, done⟩ := succeeds
  cases done.symm.trans failed

theorem step_sound {input : Input ParquetIo} (usable : Usable config alloy)
    (ingested : Ingested alloy s) (typed : GoesOn s → Typed s.sink) (sound : Unharmed s)
    (harmless : Harmless input) (moved : step config alloy s input = some t) : Unharmed t := by
  cases step_moves moved with
  | quiet sink trace inHand result =>
      exact @sound_trace _ _ [] sound (by rw [trace, List.append_nil]) (by simp)
  | refused free running why =>
      obtain ⟨⟨ws, connects⟩, filter, filters⟩ := usable
      rcases why with rfl | ⟨rfl, failed⟩ | ⟨rfl, failed⟩
      · cases harmless
      · cases connects.symm.trans failed
      · cases filters.symm.trans failed
  | took selecting => exact sound_trace sound (take_trace s alloy _) (by simp)
  | decided locking early sink trace =>
      exact @sound_trace _ _ [] sound
        (by rw [decode_trace, trace, List.append_nil]) (by simp)
  | rotated rotating call trace =>
      exact sound_trace sound (by rw [decode_trace, trace]) (by simp)
  | @rotateFailed sink taken io error rotating call =>
      exact (not_both (rotateWriters_total harmless.2 s.sink) call).elim
  | wrote writing call trace selecting => exact sound_trace sound trace (by simp)
  | @writeFailed _ taken decoded io error writing call trace free result =>
      have succeeds := writeEvent_total harmless.1 (writing_ofEvent ingested writing)
        (typed (.inl (by rw [writing]; rfl)))
      exact (not_both succeeds call).elim
  | closed closing call trace free result => exact sound_trace sound trace (by simp)
  | @closeFailed sink io error closing call =>
      exact (not_both (closeWriters_total harmless.2 s.sink) call).elim

theorem run_sound {disk : Disk} {runtime : Except String FrontfillMetrics}
    {inputs : List (Input ParquetIo)} (usable : Usable config alloy)
    (harmless : ∀ input ∈ inputs, Harmless input)
    (start : launch config (.ok (freshOn disk)) runtime = .ok s)
    (run : Machine.exec (step config alloy) s inputs = some t) : Unharmed t := by
  obtain ⟨-, same, -, trace, -⟩ := launch_start start
  have first : Ingested alloy s ∧ (GoesOn s → Typed s.sink) ∧ Unharmed s := by
    refine ⟨@run_ingested _ _ config alloy _ _ _ _ _ [] start rfl, fun _ => ?_, fun error => ?_⟩
    · rw [← Except.ok.inj same]
      exact typed_freshOn disk
    · rw [trace]
      exact ⟨List.not_mem_nil, List.not_mem_nil⟩
  have keeps : ∀ (a : State ParquetSink ParquetIo) (i : Input ParquetIo)
      (b : State ParquetSink ParquetIo), Harmless i →
      (Ingested alloy a ∧ (GoesOn a → Typed a.sink) ∧ Unharmed a) → step config alloy a i = some b →
      Ingested alloy b ∧ (GoesOn b → Typed b.sink) ∧ Unharmed b := by
    rintro a i b harmless ⟨ingested, typed, sound⟩ moved
    exact ⟨step_ingested ingested moved, step_keeps typed_kept ingested typed moved,
      step_sound usable ingested typed sound harmless moved⟩
  exact (Machine.exec_invariant _ keeps harmless run first).2.2

end Steps

/-- A log that the run neither rejects nor fails to decode. -/
def Good (alloy : Alloy) (log : Log) : Prop :=
  HasMetadata log ∧ ∀ error, decodeLog alloy log ≠ .error error

theorem good_outcome {alloy : Alloy} {log : Log} (good : Good alloy log) (error : String) :
    outcome alloy log ≠ .error error := by
  intro failed
  obtain ⟨taken, checked⟩ := @hasMetadata_checked alloy log good.1
  obtain ⟨-, -, -, -, same, -⟩ := checkMetadata_iff.mp checked
  cases decoded : decodeLog alloy taken.log with
  | error e =>
      rw [same] at decoded
      exact good.2 e decoded
  | ok kept =>
      cases kept with
      | none => cases (outcome_ignored checked decoded).symm.trans failed
      | some event => cases (outcome_kept checked decoded).symm.trans failed

/-- A run of a usable configuration over a list of logs, harmed by nothing, up to its return. -/
structure Follows (config : FrontfillConfig) (alloy : Alloy) (disk : Disk) (logs : List Log)
    (t : State ParquetSink ParquetIo) (result : Except String Unit) : Prop where
  usable : Usable config alloy
  reached : ∃ runtime s inputs, launch config (.ok (freshOn disk)) runtime = .ok s ∧
    Machine.exec (step config alloy) s inputs = some t ∧ ∀ input ∈ inputs, Harmless input
  returned : t.phase = .returned result
  received : t.received = logs

/-- Over good logs such a run ends by the shutdown. -/
theorem follows_ok {config : FrontfillConfig} {alloy : Alloy} {disk : Disk} {logs : List Log}
    {t : State ParquetSink ParquetIo} {result : Except String Unit}
    (follows : Follows config alloy disk logs t result) (good : ∀ log ∈ logs, Good alloy log) :
    result = .ok () := by
  obtain ⟨runtime, s, inputs, start, run, harmless⟩ := follows.reached
  cases result with
  | ok value => rfl
  | error error =>
      have sound := run_sound follows.usable harmless start run error
      rcases (run_ingested start run).failed error (by rw [follows.returned]; rfl) with
        bad | sink | refused
      · rw [follows.received] at bad
        obtain ⟨log, member, failed⟩ := feed_failed bad
        exact absurd failed (good_outcome (good log member) error)
      · exact absurd sink sound.1
      · exact absurd refused sound.2

end PolymarketIndexer.Frontfill
