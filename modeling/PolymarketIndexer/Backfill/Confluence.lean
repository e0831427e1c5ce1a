import PolymarketIndexer.Backfill.Progress
import PolymarketIndexer.Reference

/-! # Every interleaving gives the sequential result

A completed run has performed exactly the jobs of its plan. Two jobs of a plan either go
to different paths or are the same job, so their order does not matter. The
reference is a run that takes one chunk after another.
-/

namespace PolymarketIndexer.Backfill

open Unordered

section Sequential

variable (env : Env)

def processEntry (chunk : Chunk) (shared : Shared) (entry : (_ : String) × Group) : Shared :=
  match (writeParquetFile (env.fileIo chunk entry.1) entry.1 entry.2.1 (sortRows entry.2.2)
      chunk).run shared.output with
  | (.ok .done, output) => { shared with output := output }
  | (.ok .panicked, output) => { shared with output := output, panicked := true }
  | (.error error, output) =>
      { shared with
        output := output
        failures := shared.failures ++ [writeFailure chunk entry.1 error] }

/-- One chunk from its fetch to its last failure. -/
def processChunk (shared : Shared) (chunk : Chunk) : Shared :=
  match env.getLogs chunk with
  | .error error => { shared with failures := shared.failures ++ [fetchFailure chunk error] }
  | .ok logs =>
      let grouped := group env.alloy logs
      let written := grouped.byEvent.entries.foldl (processEntry env chunk) shared
      if 0 < grouped.missingMetadataCount then
        { written with
          failures := written.failures ++ [metadataFailure chunk grouped.missingMetadataCount] }
      else written

/-- The chunks of a plan one after another. -/
def oneAfterAnother (plan : List Chunk) (disk : Disk) : Shared :=
  plan.foldl (processChunk env) (begin_ env plan disk).shared

variable {env}

theorem processEntry_effect {chunk : Chunk} {shared : Shared} {entry : (_ : String) × Group}
    (fits : ∀ row ∈ entry.2.2, row.values.length = entry.2.1.length) :
    (processEntry env chunk shared entry).output.disk.file =
        (jobOf env chunk entry).apply shared.output.disk.file ∧
      (processEntry env chunk shared entry).failures =
        shared.failures ++ (writeFailureOf env chunk entry).toList := by
  have rowsFit : ∀ row ∈ sortRows entry.2.2, row.values.length = entry.2.1.length :=
    fun row member => fits row (sortRows_mem.mp member)
  obtain ⟨output, ran, file, -⟩ := @writeParquetFile_run _ _ _ _ _ shared.output rowsFit _
    (rfl : jobOf env chunk entry = _)
  simp only [processEntry, ran]
  cases outcome : (jobOf env chunk entry).outcome.error? with
  | none =>
      have silent : writeFailureOf env chunk entry = none := by
        simpa [writeFailureOf, jobOf] using outcome
      exact ⟨file, by rw [silent]; exact (List.append_nil _).symm⟩
  | some error =>
      have loud : writeFailureOf env chunk entry = some (writeFailure chunk entry.1 error) := by
        rw [writeFailureOf, show (env.fileIo chunk entry.1).outcome.error? = some error from outcome]
        rfl
      exact ⟨file, by rw [loud]; rfl⟩

theorem processEntries_effect {chunk : Chunk} {entries : List ((_ : String) × Group)}
    {shared : Shared}
    (fits : ∀ entry ∈ entries, ∀ row ∈ entry.2.2, row.values.length = entry.2.1.length) :
    (entries.foldl (processEntry env chunk) shared).output.disk.file =
        (entries.map (jobOf env chunk)).foldl Job.apply shared.output.disk.file ∧
      (entries.foldl (processEntry env chunk) shared).failures =
        shared.failures ++ entries.filterMap (writeFailureOf env chunk) := by
  induction entries generalizing shared with
  | nil => exact ⟨rfl, (List.append_nil _).symm⟩
  | cons entry entries ih =>
      obtain ⟨file, failures⟩ := @processEntry_effect env chunk shared entry
        (fits entry List.mem_cons_self)
      obtain ⟨file', failures'⟩ := @ih (processEntry env chunk shared entry)
        (fun e member => fits e (List.mem_cons_of_mem _ member))
      refine ⟨by rw [List.foldl_cons, file', file]; rfl, ?_⟩
      rw [List.foldl_cons, failures', failures, List.append_assoc, List.filterMap_cons]
      cases writeFailureOf env chunk entry <;> rfl

theorem processChunk_effect (shared : Shared) (chunk : Chunk) :
    (processChunk env shared chunk).output.disk.file =
        (chunkJobs env chunk).foldl Job.apply shared.output.disk.file ∧
      (processChunk env shared chunk).failures = shared.failures ++ chunkFailures env chunk := by
  unfold processChunk chunkJobs chunkFailures
  cases env.getLogs chunk with
  | error error => exact ⟨rfl, rfl⟩
  | ok logs =>
      obtain ⟨file, failures⟩ := @processEntries_effect env chunk
        (group env.alloy logs).byEvent.entries shared (fun entry member =>
          group_fits (AList.mem_lookup_iff.mpr member))
      simp only [metadataFailures]
      split
      · exact ⟨file, by rw [failures, List.append_assoc]⟩
      · exact ⟨file, by rw [failures, List.append_nil]⟩

theorem oneAfterAnother_effect (plan : List Chunk) (disk : Disk) :
    (oneAfterAnother env plan disk).output.disk.file =
        (plan.flatMap (chunkJobs env)).foldl Job.apply disk.file ∧
      (oneAfterAnother env plan disk).failures = plan.flatMap (chunkFailures env) := by
  have general : ∀ shared : Shared,
      (plan.foldl (processChunk env) shared).output.disk.file =
          (plan.flatMap (chunkJobs env)).foldl Job.apply shared.output.disk.file ∧
        (plan.foldl (processChunk env) shared).failures =
          shared.failures ++ plan.flatMap (chunkFailures env) := by
    induction plan with
    | nil => exact fun shared => ⟨rfl, (List.append_nil _).symm⟩
    | cons chunk plan ih =>
        intro shared
        obtain ⟨file, failures⟩ := @processChunk_effect env shared chunk
        obtain ⟨file', failures'⟩ := ih (processChunk env shared chunk)
        simp only [List.foldl_cons, List.flatMap_cons, List.foldl_append, file', failures', file,
          failures, List.append_assoc, and_self]
  exact general _

end Sequential

section Jobs

variable {env : Env}

theorem mem_chunkJobs {chunk : Chunk} {job : Job} :
    job ∈ chunkJobs env chunk ↔ ∃ logs E, ∃ g : Group, env.getLogs chunk = .ok logs ∧
      (group env.alloy logs).byEvent.lookup E = some g ∧ job = jobOf env chunk ⟨E, g⟩ := by
  unfold chunkJobs
  cases fetched : env.getLogs chunk with
  | error error => simp
  | ok logs =>
      rw [List.mem_map]
      constructor
      · rintro ⟨⟨E, g⟩, member, rfl⟩
        exact ⟨logs, E, g, rfl, AList.mem_lookup_iff.mpr member, rfl⟩
      · rintro ⟨logs', E, g, same, found, rfl⟩
        obtain rfl := Except.ok.inj same
        exact ⟨⟨E, g⟩, AList.mem_lookup_iff.mp found, rfl⟩

theorem chunkPath_inj {E E' : String} {chunk chunk' : Chunk}
    (h : chunkPath E chunk = chunkPath E' chunk') : E = E' ∧ chunk = chunk' := by
  obtain ⟨sameType, sameName⟩ := Path.mk.inj h
  obtain ⟨first, second⟩ := chunkFileName_inj.mp sameName
  exact ⟨sameType, Prod.ext first second⟩

/-- A path belongs to one job of a plan. -/
theorem job_of_path {plan : List Chunk} {job job' : Job} (h : job ∈ plan.flatMap (chunkJobs env))
    (h' : job' ∈ plan.flatMap (chunkJobs env)) (same : job.path = job'.path) : job = job' := by
  obtain ⟨chunk, -, inChunk⟩ := List.mem_flatMap.mp h
  obtain ⟨chunk', -, inChunk'⟩ := List.mem_flatMap.mp h'
  obtain ⟨logs, E, g, fetched, found, rfl⟩ := mem_chunkJobs.mp inChunk
  obtain ⟨logs', E', g', fetched', found', rfl⟩ := mem_chunkJobs.mp inChunk'
  obtain ⟨rfl, rfl⟩ := chunkPath_inj same
  obtain rfl := Except.ok.inj (fetched.symm.trans fetched')
  obtain rfl := Option.some.inj (found.symm.trans found')
  rfl

theorem apply_elsewhere {job : Job} {files : Files} {p : Path} (h : p ≠ job.path) :
    job.apply files p = files p := by
  unfold Job.apply
  cases job.outcome <;> simp [h]

theorem apply_at {job : Job} {files files' : Files} (h : files job.path = files' job.path) :
    job.apply files job.path = job.apply files' job.path := by
  unfold Job.apply
  cases job.outcome <;> simp [h]

theorem apply_comm {job job' : Job} (apart : job.path = job'.path → job = job') (files : Files) :
    job'.apply (job.apply files) = job.apply (job'.apply files) := by
  by_cases same : job.path = job'.path
  · rw [apart same]
  · funext p
    by_cases here : p = job.path
    · subst here
      rw [apply_elsewhere same]
      exact apply_at (apply_elsewhere same).symm
    · rw [apply_elsewhere here]
      by_cases there : p = job'.path
      · subst there
        exact apply_at (apply_elsewhere here)
      · rw [apply_elsewhere there, apply_elsewhere there, apply_elsewhere here]

/-- The jobs of a plan can be run in any order. -/
theorem jobs_any_order {plan : List Chunk} {ran : List Job}
    (perm : ran.Perm (plan.flatMap (chunkJobs env))) (files : Files) :
    ran.foldl Job.apply files = (plan.flatMap (chunkJobs env)).foldl Job.apply files := by
  apply perm.foldl_eq'
  intro job member job' member' files
  exact apply_comm (job_of_path (perm.mem_iff.mp member) (perm.mem_iff.mp member')) files

/-- A path that no job goes to is as it was. -/
theorem jobs_elsewhere {jobs : List Job} {p : Path} (h : ∀ job ∈ jobs, job.path ≠ p)
    (files : Files) : jobs.foldl Job.apply files p = files p := by
  induction jobs generalizing files with
  | nil => rfl
  | cons job jobs ih =>
      rw [List.foldl_cons, ih (fun job' member => h job' (List.mem_cons_of_mem _ member)),
        apply_elsewhere (Ne.symm (h job List.mem_cons_self))]

/-- What a path ends up with is decided by the jobs that go to it. -/
theorem jobs_at {jobs : List Job} (p : Path) (files : Files) :
    jobs.foldl Job.apply files p = (jobs.filter (fun job => job.path = p)).foldl Job.apply files p := by
  induction jobs generalizing files with
  | nil => rfl
  | cons job jobs ih =>
      by_cases here : job.path = p
      · rw [List.foldl_cons, ih, List.filter_cons, if_pos (decide_eq_true here), List.foldl_cons]
      · rw [List.foldl_cons, ih, List.filter_cons, if_neg (by simpa using here)]
        have general : ∀ (js : List Job) (f g : Files), f p = g p →
            js.foldl Job.apply f p = js.foldl Job.apply g p := by
          intro js
          induction js with
          | nil => exact fun _ _ same => same
          | cons j js ih =>
              intro f g same
              apply ih
              by_cases at_ : p = j.path
              · subst at_
                exact apply_at same
              · rw [apply_elsewhere at_, apply_elsewhere at_, same]
        exact general _ _ _ (apply_elsewhere (Ne.symm here))

end Jobs

section Trouble

def decodes (alloy : Alloy) (log : Log) : Bool :=
  match decodeLog alloy log with
  | .ok (some _) => true
  | _ => false

/-- A decoded log without its block number, transaction hash or log index. -/
def lacksMetadata (alloy : Alloy) (log : Log) : Bool :=
  decodes alloy log &&
    (log.blockNumber.isNone || log.transactionHash.isNone || log.logIndex.isNone)

variable (env : Env)

def fetchFails (chunk : Chunk) : Bool :=
  match env.getLogs chunk with
  | .error _ => true
  | .ok _ => false

/-- The event types of a chunk whose file fails to be written. -/
def failedWrites (chunk : Chunk) : List String :=
  match env.getLogs chunk with
  | .error _ => []
  | .ok logs => (group env.alloy logs).byEvent.keys.filter (fun E =>
      (env.fileIo chunk E).outcome ≠ .complete)

def missesMetadata (chunk : Chunk) : Bool :=
  match env.getLogs chunk with
  | .error _ => false
  | .ok logs => logs.any (lacksMetadata env.alloy)

variable {env}

theorem read_incomplete_iff {alloy : Alloy} {log : Log} :
    read alloy log = .incomplete ↔ lacksMetadata alloy log = true := by
  unfold read lacksMetadata decodes
  rcases decodeLog alloy log with e | _ | decoded
  · simp
  · simp
  · rcases log.blockNumber with _ | blockNumber
    · simp
    · rcases log.transactionHash with _ | txHash
      · simp
      · rcases log.logIndex with _ | logIndex <;> simp

/-- A decoded log with its metadata has a row. -/
theorem eventRow_of_complete {alloy : Alloy} {log : Log} {decoded : DecodedEvent}
    (isDecoded : decodeLog alloy log = .ok (some decoded))
    (complete : lacksMetadata alloy log = false) :
    ∃ row, eventRow? alloy decoded.eventType log = some row := by
  rw [lacksMetadata, decodes, isDecoded, Bool.true_and] at complete
  cases block : log.blockNumber with
  | none => simp [block] at complete
  | some blockNumber =>
      cases hash : log.transactionHash with
      | none => simp [hash] at complete
      | some txHash =>
          cases index : log.logIndex with
          | none => simp [index] at complete
          | some logIndex =>
              have isRow := read_eq_row.mpr ⟨decoded, blockNumber, txHash, logIndex, isDecoded,
                block, hash, index, rfl, rfl, rfl⟩
              exact ⟨_, eventRow_eq_some.mpr ⟨_, isRow⟩⟩

theorem outcome_error_iff {outcome : WriteOutcome} :
    outcome.error? = none ↔ outcome = .complete := by
  cases outcome <;> simp [WriteOutcome.error?]

theorem chunkFailures_length (chunk : Chunk) :
    (chunkFailures env chunk).length =
      (if fetchFails env chunk then 1 else 0) + (failedWrites env chunk).length +
        (if missesMetadata env chunk then 1 else 0) := by
  unfold chunkFailures fetchFails failedWrites missesMetadata
  cases env.getLogs chunk with
  | error error => rfl
  | ok logs =>
      have writes : ∀ entries : List ((_ : String) × Group),
          (entries.filterMap (writeFailureOf env chunk)).length =
            ((entries.map Sigma.fst).filter (fun E =>
              (env.fileIo chunk E).outcome ≠ .complete)).length := by
        intro entries
        induction entries with
        | nil => rfl
        | cons entry entries ih =>
            rw [List.filterMap_cons, List.map_cons, List.filter_cons]
            cases outcome : (env.fileIo chunk entry.1).outcome <;>
              simp [writeFailureOf, outcome, WriteOutcome.error?, ih]
      have metadata : (metadataFailures chunk (group env.alloy logs).missingMetadataCount).length =
          if logs.any (lacksMetadata env.alloy) then 1 else 0 := by
        have any : 0 < (group env.alloy logs).missingMetadataCount ↔
            logs.any (lacksMetadata env.alloy) = true := by
          rw [group_missing, List.any_eq_true]
          simp only [read_incomplete_iff]
        unfold metadataFailures
        by_cases some_ : 0 < (group env.alloy logs).missingMetadataCount
        · rw [if_pos some_, if_pos (any.mp some_)]
          rfl
        · rw [if_neg some_, if_neg (mt any.mpr some_)]
          rfl
      rw [List.length_append, metadata, writes]
      simp only [Bool.false_eq_true, if_false, Nat.zero_add]
      rfl

theorem failures_length (plan : List Chunk) :
    (plan.flatMap (chunkFailures env)).length =
      (plan.filter (fetchFails env)).length + (plan.flatMap (failedWrites env)).length +
        (plan.filter (missesMetadata env)).length := by
  induction plan with
  | nil => rfl
  | cons chunk plan ih =>
      have count : ∀ p : Chunk → Bool, ((chunk :: plan).filter p).length =
          (if p chunk then 1 else 0) + (plan.filter p).length := by
        intro p
        rw [List.filter_cons]
        split
        · rw [List.length_cons, Nat.add_comm]
        · rw [Nat.zero_add]
      rw [List.flatMap_cons, List.flatMap_cons, List.length_append, List.length_append, ih,
        chunkFailures_length, count, count]
      omega

theorem verdict_error_iff {failures : List String} :
    (∃ error, verdict failures = .error error) ↔ failures.length ≠ 0 := by
  unfold verdict
  cases failures with
  | nil => simp
  | cons failure failures => simp

end Trouble

/-- Two environments answer a chunk's calls alike. -/
structure AgreeOn (env env' : Env) (chunk : Chunk) : Prop where
  alloy : env'.alloy = env.alloy
  getLogs : env'.getLogs chunk = env.getLogs chunk
  fileIo : env'.fileIo chunk = env.fileIo chunk

theorem chunkJobs_agree {env env' : Env} {chunk : Chunk} (agree : AgreeOn env env' chunk) :
    chunkJobs env' chunk = chunkJobs env chunk := by
  unfold chunkJobs
  rw [agree.getLogs]
  cases env.getLogs chunk with
  | error error => rfl
  | ok logs =>
      simp only [agree.alloy]
      apply List.map_congr_left
      intro entry _
      simp only [jobOf, agree.fileIo]

theorem jobs_of_chunk {env env' : Env} {chunk : Chunk} (agree : AgreeOn env env' chunk)
    (plan : List Chunk) (E : String) :
    (plan.flatMap (chunkJobs env')).filter (fun job => job.path = chunkPath E chunk) =
      (plan.flatMap (chunkJobs env)).filter (fun job => job.path = chunkPath E chunk) := by
  rw [List.filter_flatMap, List.filter_flatMap]
  apply List.flatMap_congr
  intro chunk' _
  by_cases same : chunk' = chunk
  · rw [same, chunkJobs_agree agree]
  · have others : ∀ e : Env,
        (chunkJobs e chunk').filter (fun job => job.path = chunkPath E chunk) = [] := by
      intro e
      apply List.filter_eq_nil_iff.mpr
      intro job member path
      obtain ⟨logs, E', g, -, -, rfl⟩ := mem_chunkJobs.mp member
      exact same (chunkPath_inj (of_decide_eq_true path)).2
    rw [others, others]

/-- The run over a plan is confluent: any interleaving can be completed, and however it is
completed the files and the failures are those of the chunks taken one by one. -/
structure Confluent (env : Env) (plan : List Chunk) (disk : Disk) : Prop where
  completes : ∀ schedule s, Machine.exec (step env) (begin_ env plan disk) schedule = some s →
    ∃ more final result, Completes env plan disk (schedule ++ more) final result
  files : ∀ schedule final result, Completes env plan disk schedule final result →
    final.shared.output.disk.file = (oneAfterAnother env plan disk).output.disk.file
  failures : ∀ schedule final result, Completes env plan disk schedule final result →
    final.shared.failures.Perm (oneAfterAnother env plan disk).failures
  count : ∀ schedule final result, Completes env plan disk schedule final result →
    final.shared.failures.length =
      (plan.filter (fetchFails env)).length + (plan.flatMap (failedWrites env)).length +
        (plan.filter (missesMetadata env)).length
  error_iff : ∀ schedule final result, Completes env plan disk schedule final result →
    ((∃ error, result = .error error) ↔ ∃ chunk ∈ plan,
      fetchFails env chunk = true ∨ failedWrites env chunk ≠ [] ∨ missesMetadata env chunk = true)
  isolated : ∀ schedule final result, Completes env plan disk schedule final result →
    ∀ env' schedule' final' result', Completes env' plan disk schedule' final' result' →
      ∀ chunk, AgreeOn env env' chunk → ∀ E,
        final'.shared.output.disk.file (chunkPath E chunk) =
          final.shared.output.disk.file (chunkPath E chunk)

theorem completed_files {env : Env} {plan : List Chunk} {disk : Disk} {schedule : List Input}
    {final : State} {result : Except String Unit}
    (h : Completes env plan disk schedule final result) :
    final.shared.output.disk.file = (plan.flatMap (chunkJobs env)).foldl Job.apply disk.file := by
  obtain ⟨⟨ran, perm, file, -⟩, -, -⟩ := completed_account h
  rw [file, jobs_any_order perm]

theorem completed_count {env : Env} {plan : List Chunk} {disk : Disk} {schedule : List Input}
    {final : State} {result : Except String Unit}
    (h : Completes env plan disk schedule final result) :
    final.shared.failures.length =
      (plan.filter (fetchFails env)).length + (plan.flatMap (failedWrites env)).length +
        (plan.filter (missesMetadata env)).length := by
  obtain ⟨-, failures, -⟩ := completed_account h
  rw [failures.length_eq, failures_length]

theorem completed_error_iff {env : Env} {plan : List Chunk} {disk : Disk} {schedule : List Input}
    {final : State} {result : Except String Unit}
    (h : Completes env plan disk schedule final result) :
    (∃ error, result = .error error) ↔ ∃ chunk ∈ plan,
      fetchFails env chunk = true ∨ failedWrites env chunk ≠ [] ∨
        missesMetadata env chunk = true := by
  obtain ⟨-, -, rfl⟩ := completed_account h
  rw [verdict_error_iff, completed_count h]
  have filtered : ∀ p : Chunk → Bool,
      (plan.filter p).length ≠ 0 ↔ ∃ chunk ∈ plan, p chunk = true := by
    intro p
    rw [Ne, List.length_eq_zero_iff, List.filter_eq_nil_iff]
    simp
  have writes : (plan.flatMap (failedWrites env)).length ≠ 0 ↔
      ∃ chunk ∈ plan, failedWrites env chunk ≠ [] := by
    rw [Ne, List.length_eq_zero_iff, List.flatMap_eq_nil_iff]
    simp
  constructor
  · intro positive
    by_cases fetch : (plan.filter (fetchFails env)).length ≠ 0
    · obtain ⟨chunk, member, fails⟩ := (filtered _).mp fetch
      exact ⟨chunk, member, .inl fails⟩
    · by_cases write : (plan.flatMap (failedWrites env)).length ≠ 0
      · obtain ⟨chunk, member, fails⟩ := writes.mp write
        exact ⟨chunk, member, .inr (.inl fails)⟩
      · obtain ⟨chunk, member, fails⟩ := (filtered (missesMetadata env)).mp (by omega)
        exact ⟨chunk, member, .inr (.inr fails)⟩
  · rintro ⟨chunk, member, fails | fails | fails⟩
    · have := (filtered (fetchFails env)).mpr ⟨chunk, member, fails⟩
      omega
    · have := writes.mpr ⟨chunk, member, fails⟩
      omega
    · have := (filtered (missesMetadata env)).mpr ⟨chunk, member, fails⟩
      omega

/-- Nothing goes wrong with a chunk: it is fetched, no file fails, no decoded log lacks metadata. -/
structure CleanChunk (env : Env) (chunk : Chunk) (logs : List Log) : Prop where
  fetched : env.getLogs chunk = .ok logs
  writes : ∀ E, (env.fileIo chunk E).outcome = .complete
  metadata : ∀ log ∈ logs, lacksMetadata env.alloy log = false

theorem completed_clean {env : Env} {plan : List Chunk} {disk : Disk} {schedule : List Input}
    {final : State} {result : Except String Unit}
    (h : Completes env plan disk schedule final result) {logs : Chunk → List Log}
    (clean : ∀ chunk ∈ plan, CleanChunk env chunk (logs chunk)) : result = .ok () := by
  cases result with
  | ok value => rfl
  | error error =>
      obtain ⟨chunk, planned, trouble⟩ := (completed_error_iff h).mp ⟨error, rfl⟩
      obtain ⟨fetched, writes, metadata⟩ := clean chunk planned
      unfold fetchFails failedWrites missesMetadata at trouble
      rw [fetched] at trouble
      rcases trouble with fetch | write | missing
      · cases fetch
      · simp [writes] at write
      · obtain ⟨log, member, lacks⟩ := List.any_eq_true.mp missing
        cases (metadata log member).symm.trans lacks

theorem completed_isolated {env env' : Env} {plan : List Chunk} {disk : Disk}
    {schedule schedule' : List Input} {final final' : State} {result result' : Except String Unit}
    (h : Completes env plan disk schedule final result)
    (h' : Completes env' plan disk schedule' final' result') {chunk : Chunk}
    (agree : AgreeOn env env' chunk) (E : String) :
    final'.shared.output.disk.file (chunkPath E chunk) =
      final.shared.output.disk.file (chunkPath E chunk) := by
  rw [completed_files h, completed_files h', jobs_at, jobs_of_chunk agree, ← jobs_at]

theorem confluent {world : World} {config : BackfillConfig} {addresses : List Address}
    (prepared : prepare world.http world.alloy config = .ok addresses) (plan : List Chunk)
    (disk : Disk) : Confluent (world.env config addresses) plan disk := by
  obtain ⟨-, -, parallel, rate, -⟩ := prepare_ok prepared
  obtain ⟨file, failures⟩ := @oneAfterAnother_effect (world.env config addresses) plan disk
  refine ⟨?_, ?_, ?_, ?_, ?_, ?_⟩
  · exact fun _ _ run => completes_from parallel rate run
  · exact fun _ _ _ h => (completed_files h).trans file.symm
  · intro _ _ _ h
    rw [failures]
    exact (completed_account h).2.1
  · exact fun _ _ _ h => completed_count h
  · exact fun _ _ _ h => completed_error_iff h
  · exact fun _ _ _ h _ _ _ _ h' _ agree E => completed_isolated h h' agree E

section Example

def httpOk : HttpLibrary where
  parseUrl _ := .ok ()
  headerName name := .ok name
  headerValue value := .ok value
  buildClient _ := .ok ()

def fileOk : FileIo where
  createDirAll := .ok ()
  createFile := .ok ()
  tryNewWriter := .ok ()
  tryNewBatch := .ok ()
  write := .ok ()
  close := .ok ()

/-- The three watched contracts. -/
def watched : List Address :=
  [⟨0x4D97DCd97eC945f40cF65F87097ACe5EA0476045⟩, ⟨0x4bFb41d5B3570DeFd03C39a9A4D8dE6Bd8B8982E⟩,
    ⟨0xd91E80cF2E7be2e162c6513ceD06f1dD0dA35296⟩]

theorem watched_addresses : contractAddresses Reference.alloy.addressFromStr = .ok watched :=
  Reference.addresses_parse

/-- A cancelled order of the exchange; `topics` are those after the signature. -/
def cancelledLog (block index : UInt64) (topics : List B256) : Log where
  inner := { address := ⟨0x4bFb41d5B3570DeFd03C39a9A4D8dE6Bd8B8982E⟩,
             data := { topics := Reference.signatureHash .orderCancelled :: topics, data := ⟨[]⟩ } }
  blockNumber := some block
  transactionHash := some ⟨2⟩
  logIndex := some index

def twoChunks : BackfillConfig where
  startBlock := 10
  endBlock := 19
  chunkSizeByBlockNumber := 5
  parallelism := 2
  rateLimitPerSecond := 10
  rpcHttpUrl := "http://localhost:8545"
  rpcHttpKey := none
  rpcHttpAuthHeader := "Authorization"
  rpcHttpAuthScheme := "Bearer"

/-- The start-up succeeds for every range in order. -/
theorem prepared_range {startBlock endBlock size : UInt64} (ordered : ¬startBlock > endBlock)
    (sized : ¬size = 0) :
    prepare httpOk Reference.alloy { twoChunks with
      startBlock := startBlock
      endBlock := endBlock
      chunkSizeByBlockNumber := size } = .ok watched := by
  have passed : guards { twoChunks with
      startBlock := startBlock
      endBlock := endBlock
      chunkSizeByBlockNumber := size } = .ok () :=
    guards_ok_iff.mpr ⟨UInt64.not_lt.mp ordered, sized, by simp [twoChunks], by simp [twoChunks]⟩
  have bounded : twoChunks.rateLimitPerSecond ≤ maxPermits := by decide
  exact prepare_ok_iff.mpr ⟨passed, bounded, watched_addresses⟩

theorem twoChunks_prepared : prepare httpOk Reference.alloy twoChunks = .ok watched :=
  prepared_range (by decide) (by decide)

/-- The second chunk cannot be written. -/
def halfFailing : World where
  alloy := Reference.alloy
  http := httpOk
  getLogs _ chunk := .ok [cancelledLog chunk.1 0 [⟨7⟩]]
  fileIo chunk _ := if chunk.1 = 15 then { fileOk with write := .error "disk full" } else fileOk
  overflow := .checked

theorem confluent_halfFailing :
    Confluent (halfFailing.env twoChunks watched) [(10, 14), (15, 19)] Disk.empty :=
  @confluent halfFailing _ _ twoChunks_prepared _ _

end Example

end PolymarketIndexer.Backfill
