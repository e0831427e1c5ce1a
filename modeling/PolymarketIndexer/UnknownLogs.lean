import PolymarketIndexer.Frontfill.Ingest
import PolymarketIndexer.Backfill.Confluence

/-! # Logs of unknown events

A log without a topic, or with a first topic that is none of the ten signatures, leaves no
trace in a backfill, which decodes a log before it asks for its metadata. The live indexer
asks first, so there an unknown log without metadata ends the run, and goes unnoticed just
where the run ends without it as well.
-/

namespace PolymarketIndexer

open Feed

def Unknown (alloy : Alloy) (log : Log) : Prop := decodeLog alloy log = .ok none

namespace Backfill

/-- The same outside, but for unknown logs among those fetched. -/
structure PaddedFetches (env env' : Env) : Prop where
  alloy : env'.alloy = env.alloy
  fileIo : env'.fileIo = env.fileIo
  getLogs : ∀ chunk,
    (∃ error, env.getLogs chunk = .error error ∧ env'.getLogs chunk = .error error) ∨
      ∃ logs logs', env.getLogs chunk = .ok logs ∧ env'.getLogs chunk = .ok logs' ∧
        Padded (Unknown env.alloy) logs logs'

variable {env env' : Env}

/-- An unknown log changes neither the groups nor the count of a chunk. -/
theorem group_padded {alloy : Alloy} {logs logs' : List Log}
    (padded : Padded (Unknown alloy) logs logs') : group alloy logs' = group alloy logs := by
  apply foldl_padded _ padded
  intro grouped log unknown
  simp only [groupLog, show decodeLog alloy log = .ok none from unknown]

theorem chunkJobs_padded (padded : PaddedFetches env env') (chunk : Chunk) :
    chunkJobs env' chunk = chunkJobs env chunk := by
  unfold chunkJobs
  rcases padded.getLogs chunk with ⟨error, failed, failed'⟩ | ⟨logs, logs', fetched, fetched', pad⟩
  · rw [failed, failed']
  · rw [fetched, fetched']
    simp only [padded.alloy, group_padded pad]
    apply List.map_congr_left
    intro entry _
    simp only [jobOf, padded.fileIo]

theorem chunkFailures_padded (padded : PaddedFetches env env') (chunk : Chunk) :
    chunkFailures env' chunk = chunkFailures env chunk := by
  unfold chunkFailures
  rcases padded.getLogs chunk with ⟨error, failed, failed'⟩ | ⟨logs, logs', fetched, fetched', pad⟩
  · rw [failed, failed']
  · rw [fetched, fetched']
    simp only [padded.alloy, group_padded pad]
    congr 1
    apply List.filterMap_congr
    intro entry _
    simp only [writeFailureOf, padded.fileIo]

variable {plan : List Chunk} {disk : Disk} {schedule schedule' : List Input} {final final' : State}
  {result result' : Except String Unit}

theorem padded_files (padded : PaddedFetches env env')
    (run : Completes env plan disk schedule final result)
    (run' : Completes env' plan disk schedule' final' result') :
    final'.shared.output.disk.file = final.shared.output.disk.file := by
  rw [completed_files run, completed_files run',
    List.flatMap_congr (fun chunk _ => chunkJobs_padded padded chunk)]

theorem padded_failures (padded : PaddedFetches env env')
    (run : Completes env plan disk schedule final result)
    (run' : Completes env' plan disk schedule' final' result') :
    final'.shared.failures.Perm final.shared.failures ∧
      ((∃ error, result' = .error error) ↔ ∃ error, result = .error error) := by
  obtain ⟨-, failures, rfl⟩ := completed_account run
  obtain ⟨-, failures', rfl⟩ := completed_account run'
  rw [List.flatMap_congr (fun chunk _ => chunkFailures_padded padded chunk)] at failures'
  have same := failures'.trans failures.symm
  refine ⟨same, ?_⟩
  rw [verdict_error_iff, verdict_error_iff, same.length_eq]

end Backfill

namespace Frontfill

variable {σ ω : Type} [EventSink σ ω] {config : FrontfillConfig} {alloy : Alloy}

/-- A run over a list of logs: they come off the stream in order and the run is shut down only
after the last. It could connect and listen, and no call to the sink failed. -/
structure Fed (config : FrontfillConfig) (alloy : Alloy) (logs : List Log) (t : State σ ω)
    (result : Except String Unit) : Prop where
  reached : ∃ storage runtime s inputs, launch config storage runtime = .ok s ∧
    Machine.exec (step config alloy) s inputs = some t
  returned : t.phase = .returned result
  fed : ∃ rest, logs = t.received ++ rest
  stopped : result = .ok () → t.received = logs
  sound : ∀ error, .sinkFailed error ∉ t.trace ∧ .refused error ∉ t.trace

/-- A run that returned with all of the list received. -/
theorem fed_whole {storage : Except String σ} {runtime : Except String FrontfillMetrics}
    {s t : State σ ω} {inputs : List (Input ω)} {logs : List Log} {result : Except String Unit}
    (start : launch config storage runtime = .ok s)
    (run : Machine.exec (step config alloy) s inputs = some t)
    (returned : t.phase = .returned result) (received : t.received = logs)
    (sound : ∀ error, .sinkFailed error ∉ t.trace ∧ .refused error ∉ t.trace) :
    Fed config alloy logs t result where
  reached := ⟨storage, runtime, s, inputs, start, run⟩
  returned := returned
  fed := ⟨[], by rw [received, List.append_nil]⟩
  stopped := fun _ => received
  sound := sound

def failure : Except String Unit → Option String
  | .ok _ => none
  | .error error => some error

/-- The writes and the result of a run over a list are those of the list. -/
theorem fed_feed {logs : List Log} {t : State σ ω} {result : Except String Unit}
    (fed : Fed config alloy logs t result) :
    feed (outcome alloy) logs = (t.written, failure result) := by
  obtain ⟨storage, runtime, s, inputs, start, run⟩ := fed.reached
  have ingested := run_ingested start run
  have free : t.phase.inHand = none := by rw [fed.returned]; rfl
  have ended : t.phase.result? = some result := by rw [fed.returned]; rfl
  cases result with
  | ok value =>
      rw [← fed.stopped rfl]
      exact ingested.free free (.inr ended)
  | error error =>
      obtain ⟨rest, rfl⟩ := fed.fed
      rcases ingested.failed error ended with failed | sink | refused
      · exact feed_append_failed failed rest
      · exact absurd sink (fed.sound error).1
      · exact absurd refused (fed.sound error).2

/-- The run takes such a log and makes nothing of it. -/
def Ignored (alloy : Alloy) (log : Log) : Prop := Unknown alloy log ∧ HasMetadata log

/-- The run ends at such a log. -/
def EndsRun (alloy : Alloy) (log : Log) : Prop :=
  ¬HasMetadata log ∨ ∃ error, decodeLog alloy log = .error error

section Outcome

variable {log : Log}

theorem checked_hasMetadata {taken : Taken} (checked : checkMetadata alloy log = .ok taken) :
    HasMetadata log ∧ taken.log = log := by
  obtain ⟨hash, block, hashed, index, same, -⟩ := checkMetadata_iff.mp checked
  exact ⟨⟨by rw [block]; rfl, by rw [hashed]; rfl, by rw [index]; rfl⟩, same⟩

theorem unchecked_lacks {error : String} (checked : checkMetadata alloy log = .error error) :
    ¬HasMetadata log := by
  intro has
  obtain ⟨taken, fine⟩ := @hasMetadata_checked alloy log has
  cases fine.symm.trans checked

theorem ignored_iff (alloy : Alloy) (log : Log) :
    Ignored alloy log ↔ outcome alloy log = .ok none := by
  unfold Ignored Unknown
  cases checked : checkMetadata alloy log with
  | error error =>
      rw [outcome_incomplete checked]
      exact ⟨fun ignored => absurd ignored.2 (unchecked_lacks checked), fun same => by cases same⟩
  | ok taken =>
      obtain ⟨has, same⟩ := checked_hasMetadata checked
      rcases decoded : decodeLog alloy log with error | _ | event
      · rw [outcome_undecodable checked (by rw [same]; exact decoded)]
        simp
      · rw [outcome_ignored checked (by rw [same]; exact decoded)]
        exact ⟨fun _ => rfl, fun _ => ⟨rfl, has⟩⟩
      · rw [outcome_kept checked (by rw [same]; exact decoded)]
        simp

theorem endsRun_iff (alloy : Alloy) (log : Log) :
    EndsRun alloy log ↔ ∃ error, outcome alloy log = .error error := by
  unfold EndsRun
  cases checked : checkMetadata alloy log with
  | error error =>
      exact ⟨fun _ => ⟨error, outcome_incomplete checked⟩, fun _ => .inl (unchecked_lacks checked)⟩
  | ok taken =>
      obtain ⟨has, same⟩ := checked_hasMetadata checked
      rcases decoded : decodeLog alloy log with error | _ | event
      · rw [outcome_undecodable checked (by rw [same]; exact decoded)]
        simp
      · rw [outcome_ignored checked (by rw [same]; exact decoded)]
        simp [has]
      · rw [outcome_kept checked (by rw [same]; exact decoded)]
        simp [has]

end Outcome

/-- An unknown log is ignored or ends the run. -/
theorem unknown_ignored_or {log : Log} (unknown : Unknown alloy log) :
    Ignored alloy log ∨ EndsRun alloy log := by
  by_cases has : HasMetadata log
  · exact .inl ⟨unknown, has⟩
  · exact .inr (.inl has)

theorem failure_injective {result result' : Except String Unit}
    (h : failure result = failure result') : result = result' := by
  cases result <;> cases result' <;> simp_all [failure]

theorem failure_eq_none {result : Except String Unit} : failure result = none ↔ result = .ok () := by
  cases result <;> simp [failure]

end Frontfill

/-- Unknown logs are inert in a backfill: its files, failures and status are the same with and
without them. A live run's writes and status are the same with and without them exactly when each
of them has its metadata, or comes where the run has ended or ends at the next log it does not
ignore; and so is its error when all of them have their metadata. -/
theorem unknown_inert_iff {σ ω σ' ω' : Type} [EventSink σ ω] [EventSink σ' ω'] (alloy : Alloy) :
    (∀ (env env' : Backfill.Env) (plan : List Backfill.Chunk) (disk : Disk)
      (schedule schedule' : List Backfill.Input) (final final' : Backfill.State)
      (result result' : Except String Unit), env.alloy = alloy →
      Backfill.PaddedFetches env env' →
      Backfill.Completes env plan disk schedule final result →
      Backfill.Completes env' plan disk schedule' final' result' →
      final'.shared.output.disk.file = final.shared.output.disk.file ∧
        final'.shared.failures.Perm final.shared.failures ∧
        ((∃ error, result' = .error error) ↔ ∃ error, result = .error error)) ∧
    ∀ (config config' : Frontfill.FrontfillConfig) (logs logs' : List Log)
      (t : Frontfill.State σ ω) (t' : Frontfill.State σ' ω') (result result' : Except String Unit),
      Padded (Unknown alloy) logs logs' →
      Frontfill.Fed config alloy logs t result → Frontfill.Fed config' alloy logs' t' result' →
      (t'.written = t.written ∧ (result' = .ok () ↔ result = .ok ()) ↔
        Unnoticed (Unknown alloy) (Frontfill.Ignored alloy) (Frontfill.EndsRun alloy) []
          logs logs') ∧
      (Padded (Frontfill.Ignored alloy) logs logs' →
        t'.written = t.written ∧ result' = result) := by
  constructor
  · intro env env' plan disk schedule schedule' final final' result result' _ padded run run'
    exact ⟨Backfill.padded_files padded run run', Backfill.padded_failures padded run run'⟩
  · intro config config' logs logs' t t' result result' padded fed fed'
    constructor
    · rw [← sameFeed_iff (Frontfill.ignored_iff alloy) (Frontfill.endsRun_iff alloy)
        (fun _ => Frontfill.unknown_ignored_or) padded, SameFeed, Frontfill.fed_feed fed,
        Frontfill.fed_feed fed', Frontfill.failure_eq_none, Frontfill.failure_eq_none]
    · intro ignored
      have same := feed_padded (fun log => (Frontfill.ignored_iff alloy log).mp) ignored
      rw [Frontfill.fed_feed fed, Frontfill.fed_feed fed'] at same
      obtain ⟨written, failures⟩ := Prod.mk.inj same
      exact ⟨written, Frontfill.failure_injective failures⟩

section Example

open Frontfill

def noTopic (block : Option UInt64) : Log where
  inner := { address := ⟨0x4bFb41d5B3570DeFd03C39a9A4D8dE6Bd8B8982E⟩,
             data := { topics := [], data := ⟨[]⟩ } }
  blockNumber := block
  transactionHash := some ⟨2⟩
  logIndex := some 0

/-- What a run without a failed call to its sink has returned with. -/
def undisturbed (t : State ParquetSink ParquetIo) : Option (Option String) :=
  match t.phase with
  | .returned result =>
      if t.trace.all (fun effect => match effect with
        | .sinkFailed _ | .refused _ => false
        | _ => true) then some (Frontfill.failure result) else none
  | _ => none

theorem undisturbed_fed {inputs : List (Input ParquetIo)} {logs : List Log}
    {result : Except String Unit}
    (ran : ((live (connecting ++ inputs)).map fun t => (t.received, undisturbed t)) =
      some (logs, some (Frontfill.failure result))) :
    ∃ t : State ParquetSink ParquetIo, Fed liveConfig Reference.alloy logs t result := by
  obtain ⟨t, run, same⟩ := Option.map_eq_some_iff.mp ran
  obtain ⟨received, ended⟩ := Prod.mk.inj same
  unfold undisturbed at ended
  split at ended
  · rename_i result' phase
    split at ended
    · rename_i sound
      obtain rfl := failure_injective (Option.some.inj ended)
      refine ⟨t, fed_whole liveStart_launched run phase received fun error => ⟨fun member => ?_,
        fun member => ?_⟩⟩
      · cases List.all_eq_true.mp sound _ member
      · cases List.all_eq_true.mp sound _ member
    · cases ended
  · cases ended

theorem fed_cancelled : ∃ t : State ParquetSink ParquetIo,
    Fed liveConfig Reference.alloy [cancelled 10 0] t (.ok ()) :=
  @undisturbed_fed (ingesting (cancelled 10 0) ++ stopping) _ _ (by
    rw [live_connecting]
    decide +kernel)

/-- Two chunks, each with an unknown log without a block number before its own. -/
def paddedHalf : Backfill.World :=
  { Backfill.halfFailing with
    getLogs := fun _ chunk => .ok [noTopic none, Backfill.cancelledLog chunk.1 0 [⟨7⟩]] }

theorem paddedHalf_fetches : Backfill.PaddedFetches
    (Backfill.halfFailing.env Backfill.twoChunks Backfill.watched)
    (paddedHalf.env Backfill.twoChunks Backfill.watched) where
  alloy := rfl
  fileIo := rfl
  getLogs _ := .inr ⟨_, _, rfl, rfl, .insert _ rfl (.keep _ .nil)⟩

theorem unknown_inert_cancelled :
    (∃ t t' : State ParquetSink ParquetIo,
      Fed liveConfig Reference.alloy [cancelled 10 0] t (.ok ()) ∧
        Fed liveConfig Reference.alloy [noTopic (some 10), cancelled 10 0] t' (.ok ()) ∧
        t'.written = t.written ∧
        Unnoticed (Unknown Reference.alloy) (Ignored Reference.alloy) (EndsRun Reference.alloy) []
          [cancelled 10 0] [noTopic (some 10), cancelled 10 0]) ∧
    ∃ schedule schedule' final final' result result',
      Backfill.Completes (Backfill.halfFailing.env Backfill.twoChunks Backfill.watched)
          [(10, 14), (15, 19)] Disk.empty schedule final result ∧
        Backfill.Completes (paddedHalf.env Backfill.twoChunks Backfill.watched)
          [(10, 14), (15, 19)] Disk.empty schedule' final' result' ∧
        final'.shared.output.disk.file = final.shared.output.disk.file ∧
        final'.shared.failures.Perm final.shared.failures ∧
        ((∃ error, result' = .error error) ↔ ∃ error, result = .error error) := by
  have inert := @unknown_inert_iff ParquetSink ParquetIo ParquetSink ParquetIo _ _ Reference.alloy
  constructor
  · obtain ⟨t, fed⟩ := fed_cancelled
    obtain ⟨t', fed'⟩ : ∃ t' : State ParquetSink ParquetIo,
        Fed liveConfig Reference.alloy [noTopic (some 10), cancelled 10 0] t' (.ok ()) :=
      @undisturbed_fed ([.next (some (noTopic (some 10))), .lock] ++ ingesting (cancelled 10 0) ++
        stopping) _ _ (by
          rw [live_connecting]
          decide +kernel)
    have padded : Padded (Ignored Reference.alloy) [cancelled 10 0]
        [noTopic (some 10), cancelled 10 0] := .insert _ ⟨rfl, rfl, rfl, rfl⟩ (.keep _ .nil)
    have unknown : Padded (Unknown Reference.alloy) [cancelled 10 0]
        [noTopic (some 10), cancelled 10 0] := .insert _ rfl (.keep _ .nil)
    have same := inert.2 _ _ _ _ t t' _ _ unknown fed fed'
    have written := (same.2 padded).1
    exact ⟨t, t', fed, fed', written, same.1.mp ⟨written, Iff.rfl⟩⟩
  · have start := fun (env : Backfill.Env) =>
      (rfl : Machine.exec (Backfill.step env) (Backfill.begin_ env [(10, 14), (15, 19)] Disk.empty)
        [] = some (Backfill.begin_ env [(10, 14), (15, 19)] Disk.empty))
    obtain ⟨_, final, result, completes⟩ := Backfill.completes_from (by decide) (by decide)
      (start (Backfill.halfFailing.env Backfill.twoChunks Backfill.watched))
    obtain ⟨_, final', result', completes'⟩ := Backfill.completes_from (by decide) (by decide)
      (start (paddedHalf.env Backfill.twoChunks Backfill.watched))
    have same := inert.1 _ _ _ _ _ _ _ _ _ _ rfl paddedHalf_fetches completes completes'
    exact ⟨_, _, final, final', result, result', completes, completes', same⟩

/-- An unknown log without a block number ends a live run that is fine without it. -/
theorem noTopic_aborts : ∃ (t t' : State ParquetSink ParquetIo) (error : String),
    Padded (Unknown Reference.alloy) [cancelled 10 0] [noTopic none, cancelled 10 0] ∧
      Fed liveConfig Reference.alloy [cancelled 10 0] t (.ok ()) ∧
      Fed liveConfig Reference.alloy [noTopic none, cancelled 10 0] t' (.error error) := by
  obtain ⟨t, fed⟩ := fed_cancelled
  have returns : (live (connecting ++ [.next (some (noTopic none))])).isSome := by
    rw [live_connecting]
    rfl
  obtain ⟨t', run⟩ := Option.isSome_iff_exists.mp returns
  have heard := run
  rw [live_connecting] at heard
  have trace : t'.trace = [.received (noTopic none)] := seen State.trace heard rfl
  have received : t'.received = [noTopic none] := by rw [State.received, trace]; rfl
  have phase : t'.phase = .returned (.error "frontfill received log missing block_number") :=
    seen State.phase heard rfl
  have fed' : Fed liveConfig Reference.alloy [noTopic none, cancelled 10 0] t'
      (.error "frontfill received log missing block_number") := by
    refine ⟨⟨_, _, _, _, liveStart_launched, run⟩, phase,
      ⟨[cancelled 10 0], by rw [received]; rfl⟩, fun ok => (by cases ok), fun error => ?_⟩
    rw [trace]
    simp
  exact ⟨t, t', _, .insert _ rfl (.keep _ .nil), fed, fed'⟩

end Example

end PolymarketIndexer
