import PolymarketIndexer.Backfill.Run

/-! # The work of a run

A chunk's files and failures are settled before it is worked on: they depend on the
provider's answer and on the file system's answers for that chunk only. Along any
interleaving the files written so far together with those the tasks still have to
write stay the files of the plan, and likewise the failures: a run that completes has
performed exactly the jobs of its plan, in some order.
-/

namespace PolymarketIndexer.Backfill

open Unordered

variable (env : Env)

def jobOf (chunk : Chunk) (entry : (_ : String) × Group) : Job where
  path := chunkPath entry.1 chunk
  table := fileTable entry.1 entry.2.1 (sortRows entry.2.2)
  outcome := (env.fileIo chunk entry.1).outcome

def writeFailureOf (chunk : Chunk) (entry : (_ : String) × Group) : Option String :=
  (env.fileIo chunk entry.1).outcome.error?.map (writeFailure chunk entry.1)

def metadataFailures (chunk : Chunk) (missingMetadataCount : UInt64) : List String :=
  if 0 < missingMetadataCount then [metadataFailure chunk missingMetadataCount] else []

/-- The files a chunk has to write. -/
def chunkJobs (chunk : Chunk) : List Job :=
  match env.getLogs chunk with
  | .error _ => []
  | .ok logs => (group env.alloy logs).byEvent.entries.map (jobOf env chunk)

/-- The failures a chunk records. -/
def chunkFailures (chunk : Chunk) : List String :=
  match env.getLogs chunk with
  | .error error => [fetchFailure chunk error]
  | .ok logs =>
      let grouped := group env.alloy logs
      grouped.byEvent.entries.filterMap (writeFailureOf env chunk) ++
        metadataFailures chunk grouped.missingMetadataCount

def taskJobs (task : Chunk × Task) : List Job :=
  match task.2 with
  | .acquiring => chunkJobs env task.1
  | .fetching => chunkJobs env task.1
  | .writing todo _ => todo.map (jobOf env task.1)
  | .writeFailed _ todo _ => todo.map (jobOf env task.1)
  | _ => []

def taskFailures (task : Chunk × Task) : List String :=
  match task.2 with
  | .acquiring => chunkFailures env task.1
  | .fetching => chunkFailures env task.1
  | .fetchFailed failure => [failure]
  | .writing todo missing =>
      todo.filterMap (writeFailureOf env task.1) ++ metadataFailures task.1 missing
  | .writeFailed failure todo missing =>
      failure :: (todo.filterMap (writeFailureOf env task.1) ++ metadataFailures task.1 missing)
  | .missingMetadata failure => [failure]
  | .finished => []

/-- The rows a task still has to write fit their columns. -/
def Task.Fits : Task → Prop
  | .writing todo _ => ∀ entry ∈ todo, ∀ row ∈ entry.2.2, row.values.length = entry.2.1.length
  | .writeFailed _ todo _ =>
      ∀ entry ∈ todo, ∀ row ∈ entry.2.2, row.values.length = entry.2.1.length
  | _ => True

/-- What one step of a task does: it runs some of the jobs and keeps the account. -/
structure Accounted (chunk : Chunk) (task task' : Task) (shared shared' : Shared) : Prop where
  fits : task'.Fits
  panicked : shared'.panicked = shared.panicked
  jobs : ∃ ran : List Job, (ran ++ taskJobs env (chunk, task')).Perm (taskJobs env (chunk, task)) ∧
    shared'.output.disk.file = ran.foldl Job.apply shared.output.disk.file ∧
    shared'.output.closed = shared.output.closed ++ ran.filterMap Job.closed?
  failures : (shared'.failures ++ taskFailures env (chunk, task')).Perm
    (shared.failures ++ taskFailures env (chunk, task))

variable {env}

theorem sortRows_mem {rows : List EventRow} {row : EventRow} : row ∈ sortRows rows ↔ row ∈ rows :=
  List.mem_insertionSort rowLe

theorem iterate_perm {order : Order ((_ : String) × Group)} {groups : Map String Group} :
    (iterate order groups).Perm groups.entries := order.perm groups.entries

/-- A step that runs no job and records nothing. -/
theorem Accounted.silent {chunk : Chunk} {task task' : Task} {shared shared' : Shared}
    (fits : task'.Fits) (panicked : shared'.panicked = shared.panicked)
    (output : shared'.output = shared.output)
    (jobs : (taskJobs env (chunk, task')).Perm (taskJobs env (chunk, task)))
    (failures : (shared'.failures ++ taskFailures env (chunk, task')).Perm
      (shared.failures ++ taskFailures env (chunk, task))) :
    Accounted env chunk task task' shared shared' where
  fits := fits
  panicked := panicked
  jobs := ⟨[], jobs, by rw [output]; rfl, by rw [output]; exact (List.append_nil _).symm⟩
  failures := failures

theorem fetched_accounted {chunk : Chunk} {shared : Shared} {logs : List Log}
    (fetched : env.getLogs chunk = .ok logs) (order : Order ((_ : String) × Group)) :
    Accounted env chunk .fetching
      (.writing (iterate order (group env.alloy logs).byEvent)
        (group env.alloy logs).missingMetadataCount) shared shared := by
  refine Accounted.silent ?_ rfl rfl ?_ ?_
  · intro entry member row inRows
    exact group_fits (mem_iterate.mp member) row inRows
  · simp only [taskJobs, chunkJobs, fetched]
    exact iterate_perm.map _
  · simp only [taskFailures, chunkFailures, fetched]
    exact ((iterate_perm.filterMap _).append_right _).append_left _

theorem closed_singleton (job : Job) : [job].filterMap Job.closed? = job.closed?.toList := by
  cases h : job.closed? <;> simp [h]

theorem write_accounted {chunk : Chunk} {eventType : String} {columns : List String}
    {rows : List EventRow} {todo : Todo} {missing : UInt64} {shared : Shared}
    (fits : (Task.writing (⟨eventType, columns, rows⟩ :: todo) missing).Fits) :
    ∃ task' shared',
      taskStep env chunk (.writing (⟨eventType, columns, rows⟩ :: todo) missing) shared .proceed =
        some (task', shared') ∧
      Accounted env chunk (.writing (⟨eventType, columns, rows⟩ :: todo) missing) task'
        shared shared' ∧
      (task' = .writing todo missing ∨ ∃ failure, task' = .writeFailed failure todo missing) := by
  have rowsFit : ∀ row ∈ sortRows rows, row.values.length = columns.length := fun row member =>
    fits _ List.mem_cons_self row (sortRows_mem.mp member)
  have restFits : ∀ entry ∈ todo, ∀ row ∈ entry.2.2, row.values.length = entry.2.1.length :=
    fun entry member => fits entry (List.mem_cons_of_mem _ member)
  obtain ⟨output, ran, file, closed⟩ := @writeParquetFile_run _ _ _ _ _ shared.output rowsFit _
    (rfl : jobOf env chunk ⟨eventType, columns, rows⟩ = _)
  have ranOne : output.closed = shared.output.closed ++
      [jobOf env chunk ⟨eventType, columns, rows⟩].filterMap Job.closed? := by
    rw [closed, closed_singleton]
  simp only [taskStep, ran]
  cases outcome : (jobOf env chunk ⟨eventType, columns, rows⟩).outcome.error? with
  | none =>
      refine ⟨_, _, rfl, ⟨restFits, rfl, ?_, ?_⟩, .inl rfl⟩
      · exact ⟨[jobOf env chunk ⟨eventType, columns, rows⟩], .refl _, file, ranOne⟩
      · have silent : writeFailureOf env chunk ⟨eventType, columns, rows⟩ = none := by
          simpa [writeFailureOf, jobOf] using outcome
        simp only [taskFailures, List.filterMap_cons, silent]
        exact .refl _
  | some error =>
      refine ⟨_, _, rfl, ⟨restFits, rfl, ?_, ?_⟩, .inr ⟨_, rfl⟩⟩
      · exact ⟨[jobOf env chunk ⟨eventType, columns, rows⟩], .refl _, file, ranOne⟩
      · have loud : writeFailureOf env chunk ⟨eventType, columns, rows⟩ =
            some (writeFailure chunk eventType error) := by
          simp only [writeFailureOf]
          rw [show (env.fileIo chunk eventType).outcome.error? = some error from outcome]
          rfl
        simp only [taskFailures, List.filterMap_cons, loud]
        exact .refl _

theorem push_accounted {chunk : Chunk} {task task' : Task} {shared : Shared} {failure : String}
    (fits : task'.Fits) (jobs : taskJobs env (chunk, task) = taskJobs env (chunk, task'))
    (failures : taskFailures env (chunk, task) = failure :: taskFailures env (chunk, task')) :
    Accounted env chunk task task' shared
      { shared with failures := shared.failures ++ [failure] } := by
  refine Accounted.silent fits rfl rfl ?_ ?_
  · rw [jobs]
  · rw [failures, List.append_assoc]
    rfl

theorem taskStep_accounted {chunk : Chunk} {task task' : Task} {shared shared' : Shared}
    {event : Event} (fits : task.Fits)
    (h : taskStep env chunk task shared event = some (task', shared')) :
    Accounted env chunk task task' shared shared' := by
  cases task with
  | acquiring =>
      cases event with
      | acquire =>
          simp only [taskStep] at h
          split at h
          · obtain ⟨rfl, rfl⟩ := Prod.mk.inj (Option.some.inj h)
            exact Accounted.silent trivial rfl rfl (.refl _) (.refl _)
          · cases h
      | _ => cases h
  | fetching =>
      cases event with
      | fetched order =>
          simp only [taskStep] at h
          cases fetched : env.getLogs chunk with
          | error error =>
              simp only [fetched] at h
              obtain ⟨rfl, rfl⟩ := Prod.mk.inj (Option.some.inj h)
              refine Accounted.silent trivial rfl rfl ?_ ?_
              · simp only [taskJobs, chunkJobs, fetched]
                exact .refl _
              · simp only [taskFailures, chunkFailures, fetched]
                exact .refl _
          | ok logs =>
              simp only [fetched] at h
              obtain ⟨rfl, rfl⟩ := Prod.mk.inj (Option.some.inj h)
              exact fetched_accounted fetched order
      | _ => cases h
  | fetchFailed failure =>
      cases event with
      | push =>
          obtain ⟨rfl, rfl⟩ := Prod.mk.inj (Option.some.inj h)
          exact push_accounted trivial rfl rfl
      | _ => cases h
  | writing todo missing =>
      cases event with
      | proceed =>
          cases todo with
          | nil =>
              simp only [taskStep] at h
              split at h
              · rename_i some_
                obtain ⟨rfl, rfl⟩ := Prod.mk.inj (Option.some.inj h)
                refine Accounted.silent trivial rfl rfl (.refl _) ?_
                simp only [taskFailures, metadataFailures, some_, if_true, List.filterMap_nil]
                exact .refl _
              · rename_i none_
                obtain ⟨rfl, rfl⟩ := Prod.mk.inj (Option.some.inj h)
                refine Accounted.silent trivial rfl rfl (.refl _) ?_
                simp only [taskFailures, metadataFailures, none_, if_false, List.filterMap_nil]
                exact .refl _
          | cons entry todo =>
              obtain ⟨eventType, columns, rows⟩ := entry
              obtain ⟨task₁, shared₁, steps, accounted, -⟩ := @write_accounted _ _ _ _ _ _ _ shared fits
              obtain ⟨rfl, rfl⟩ := Prod.mk.inj (Option.some.inj (steps.symm.trans h))
              exact accounted
      | _ => cases todo <;> cases h
  | writeFailed failure todo missing =>
      cases event with
      | push =>
          obtain ⟨rfl, rfl⟩ := Prod.mk.inj (Option.some.inj h)
          exact push_accounted fits rfl rfl
      | _ => cases h
  | missingMetadata failure =>
      cases event with
      | push =>
          obtain ⟨rfl, rfl⟩ := Prod.mk.inj (Option.some.inj h)
          exact push_accounted trivial rfl rfl
      | _ => cases h
  | finished => cases event <;> cases h

/-- A step of a task takes its permit, or leaves the limiter alone and writes one file at most. -/
theorem taskStep_shared {chunk : Chunk} {task task' : Task} {shared shared' : Shared}
    {event : Event} (h : taskStep env chunk task shared event = some (task', shared')) :
    (task = .acquiring ∧ event = .acquire ∧ shared'.output = shared.output) ∨
      (task ≠ .acquiring ∧ shared'.limiter = shared.limiter ∧
        (shared'.output = shared.output ∨ ∃ eventType columns rows todo missing,
          task = .writing (⟨eventType, columns, rows⟩ :: todo) missing ∧ event = .proceed ∧
          shared'.output = ((writeParquetFile (env.fileIo chunk eventType) eventType columns
            (sortRows rows) chunk).run shared.output).2)) := by
  cases task with
  | acquiring =>
      cases event with
      | acquire =>
          simp only [taskStep] at h
          split at h
          · obtain ⟨-, rfl⟩ := Prod.mk.inj (Option.some.inj h)
            exact .inl ⟨rfl, rfl, rfl⟩
          · cases h
      | _ => cases h
  | writing todo missing =>
      right
      cases event with
      | proceed =>
          cases todo with
          | nil =>
              simp only [taskStep] at h
              split at h
              · obtain ⟨-, rfl⟩ := Prod.mk.inj (Option.some.inj h)
                exact ⟨nofun, rfl, .inl rfl⟩
              · obtain ⟨-, rfl⟩ := Prod.mk.inj (Option.some.inj h)
                exact ⟨nofun, rfl, .inl rfl⟩
          | cons entry todo =>
              obtain ⟨eventType, columns, rows⟩ := entry
              simp only [taskStep] at h
              generalize ran : (writeParquetFile (env.fileIo chunk eventType) eventType columns
                (sortRows rows) chunk).run shared.output = result at h
              have written : shared'.limiter = shared.limiter ∧ shared'.output = result.2 := by
                split at h
                · obtain ⟨-, rfl⟩ := Prod.mk.inj (Option.some.inj h)
                  exact ⟨rfl, rfl⟩
                · obtain ⟨-, rfl⟩ := Prod.mk.inj (Option.some.inj h)
                  exact ⟨rfl, rfl⟩
                · obtain ⟨-, rfl⟩ := Prod.mk.inj (Option.some.inj h)
                  exact ⟨rfl, rfl⟩
              refine ⟨nofun, written.1, .inr ⟨_, _, _, _, _, rfl, rfl, ?_⟩⟩
              rw [ran, written.2]
      | _ => cases todo <;> cases h
  | fetching =>
      right
      cases event with
      | fetched order =>
          simp only [taskStep] at h
          split at h
          · obtain ⟨-, rfl⟩ := Prod.mk.inj (Option.some.inj h)
            exact ⟨nofun, rfl, .inl rfl⟩
          · obtain ⟨-, rfl⟩ := Prod.mk.inj (Option.some.inj h)
            exact ⟨nofun, rfl, .inl rfl⟩
      | _ => cases h
  | finished => cases event <;> cases h
  | _ =>
      right
      cases event with
      | push =>
          obtain ⟨-, rfl⟩ := Prod.mk.inj (Option.some.inj h)
          exact ⟨nofun, rfl, .inl rfl⟩
      | _ => cases h

section Run

variable (env)

/-- The account of a run balances. -/
structure Balanced (plan : List Chunk) (disk : Disk) (s : State) : Prop where
  fits : ∀ task ∈ s.tasks, task.2.Fits
  panicked : s.shared.panicked = false
  jobs : ∃ ran : List Job,
    (ran ++ (s.tasks.flatMap (taskJobs env) ++ s.waiting.flatMap (chunkJobs env))).Perm
      (plan.flatMap (chunkJobs env)) ∧
    s.shared.output.disk.file = ran.foldl Job.apply disk.file ∧
    s.shared.output.closed = ran.filterMap Job.closed?
  failures : (s.shared.failures ++
      (s.tasks.flatMap (taskFailures env) ++ s.waiting.flatMap (chunkFailures env))).Perm
    (plan.flatMap (chunkFailures env))
  returned : ∀ result, s.returned = some result →
    s.waiting = [] ∧ (∀ task ∈ s.tasks, task.2.isFinished = true) ∧
      result = verdict s.shared.failures

variable {env} {plan : List Chunk} {disk : Disk}

theorem balanced_begin : Balanced env plan disk (begin_ env plan disk) where
  fits task member := by cases member
  panicked := rfl
  jobs := ⟨[], .refl _, rfl, rfl⟩
  failures := .refl _
  returned result h := by cases h

theorem set_split {α : Type} {xs : List α} {i : Nat} {x : α} (h : xs[i]? = some x) :
    ∃ before after, xs = before ++ x :: after ∧ ∀ y, xs.set i y = before ++ y :: after := by
  obtain ⟨inside, rfl⟩ := List.getElem?_eq_some_iff.mp h
  refine ⟨xs.take i, xs.drop (i + 1), ?_, fun y => ?_⟩
  · rw [List.getElem_cons_drop, List.take_append_drop]
  · rw [List.set_eq_take_append_cons_drop, if_pos inside]

/-- Everything a step of the run can be. -/
theorem step_cases {s t : State} {input : Input} (h : step env s input = some t) :
    s.returned = none ∧ s.shared.panicked = false ∧
      ((∃ chunk waiting, input = .launch ∧ s.waiting = chunk :: waiting ∧
          s.active < env.parallelism ∧
          t = { s with waiting := waiting, tasks := s.tasks ++ [(chunk, .acquiring)] }) ∨
        (∃ index event chunk task task' shared, input = .task index event ∧
          s.tasks[index]? = some (chunk, task) ∧
          taskStep env chunk task s.shared event = some (task', shared) ∧
          t = { s with tasks := s.tasks.set index (chunk, task'), shared := shared }) ∨
        (∃ limiter, (input = .readPermits ∨ input = .addPermits) ∧
          t = { s with shared.limiter := limiter }) ∨
        (input = .complete ∧ s.waiting = [] ∧ (∀ task ∈ s.tasks, task.2.isFinished = true) ∧
          t = { s with returned := some (verdict s.shared.failures) })) := by
  unfold step at h
  split at h
  · cases h
  · rename_i running
    simp only [Bool.or_eq_true, not_or, Bool.not_eq_true, Option.isSome_eq_false_iff,
      Option.isNone_iff_eq_none] at running
    refine ⟨running.1, running.2, ?_⟩
    cases input with
    | launch =>
        simp only at h
        split at h
        · cases h
        · rename_i chunk waiting first
          split at h
          · rename_i room
            exact .inl ⟨chunk, waiting, rfl, first, room, (Option.some.inj h).symm⟩
          · cases h
    | task index event =>
        simp only at h
        split at h
        · cases h
        · rename_i chunk task found
          obtain ⟨⟨task', shared⟩, stepped, rfl⟩ := Option.map_eq_some_iff.mp h
          exact .inr (.inl ⟨index, event, chunk, task, task', shared, rfl, found, stepped, rfl⟩)
    | readPermits =>
        simp only at h
        split at h
        · exact .inr (.inr (.inl ⟨_, .inl rfl, (Option.some.inj h).symm⟩))
        · cases h
    | addPermits =>
        simp only at h
        split at h
        · cases h
        · exact .inr (.inr (.inl ⟨_, .inr rfl, (Option.some.inj h).symm⟩))
    | complete =>
        simp only at h
        split at h
        · rename_i finished
          simp only [Bool.and_eq_true, List.isEmpty_iff, List.all_eq_true] at finished
          exact .inr (.inr (.inr ⟨rfl, finished.1, finished.2, (Option.some.inj h).symm⟩))
        · cases h

theorem step_balanced {s t : State} {input : Input} (balanced : Balanced env plan disk s)
    (h : step env s input = some t) : Balanced env plan disk t := by
  obtain ⟨running, sound, cases_⟩ := step_cases h
  obtain ⟨ran, jobs, file, closed⟩ := balanced.jobs
  rcases cases_ with ⟨chunk, waiting, -, first, -, rfl⟩ |
    ⟨index, event, chunk, task, task', shared, -, found, stepped, rfl⟩ |
    ⟨limiter, -, rfl⟩ | ⟨-, none_, finished, rfl⟩
  · refine ⟨?_, sound, ⟨ran, ?_, file, closed⟩, ?_, ?_⟩
    · intro task member
      rcases List.mem_append.mp member with old | new
      · exact balanced.fits task old
      · obtain rfl := List.mem_singleton.mp new
        trivial
    · refine .trans ?_ jobs
      rw [first, List.flatMap_append, List.append_assoc]
      simp only [List.flatMap_cons, List.flatMap_nil, List.append_nil]
      exact .refl _
    · refine .trans ?_ balanced.failures
      rw [first]
      simp only [List.flatMap_append, List.flatMap_cons, List.flatMap_nil, List.append_nil,
        List.append_assoc]
      exact .refl _
    · intro result returned
      cases running.symm.trans returned
  · obtain ⟨before, after, tasks, set⟩ := set_split found
    have accounted := taskStep_accounted (balanced.fits _ (List.mem_of_getElem? found)) stepped
    obtain ⟨ranNow, moved, file', closed'⟩ := accounted.jobs
    refine ⟨?_, ?_, ⟨ran ++ ranNow, ?_, ?_, ?_⟩, ?_, ?_⟩
    · intro task₁ member
      rw [set] at member
      rcases List.mem_append.mp member with old | rest
      · exact balanced.fits task₁ (by rw [tasks]; exact List.mem_append_left _ old)
      · rcases List.mem_cons.mp rest with rfl | old
        · exact accounted.fits
        · exact balanced.fits task₁ (by
            rw [tasks]
            exact List.mem_append_right _ (List.mem_cons_of_mem _ old))
    · rw [accounted.panicked, sound]
    · rw [List.perm_iff_count] at jobs moved ⊢
      intro job
      have whole := jobs job
      have part := moved job
      rw [tasks] at whole
      simp only [set, List.flatMap_append, List.flatMap_cons, List.count_append] at whole part ⊢
      omega
    · rw [List.foldl_append, file', file]
    · rw [List.filterMap_append, closed', closed]
    · have moved := accounted.failures
      have whole := balanced.failures
      rw [List.perm_iff_count] at whole moved ⊢
      intro failure
      have whole := whole failure
      have part := moved failure
      rw [tasks] at whole
      simp only [set, List.flatMap_append, List.flatMap_cons, List.count_append] at whole part ⊢
      omega
    · intro result returned
      cases running.symm.trans returned
  · exact ⟨balanced.fits, sound, ⟨ran, jobs, file, closed⟩, balanced.failures, balanced.returned⟩
  · refine ⟨balanced.fits, sound, ⟨ran, jobs, file, closed⟩, balanced.failures, ?_⟩
    intro result returned
    exact ⟨none_, finished, (Option.some.inj returned).symm⟩

theorem run_balanced {schedule : List Input} {s : State}
    (run : Machine.exec (step env) (begin_ env plan disk) schedule = some s) :
    Balanced env plan disk s :=
  Machine.exec_invariant (step env) (P := Balanced env plan disk)
    (fun _ _ _ (_ : True) balanced stepped => step_balanced balanced stepped)
    (fun _ _ => trivial) run balanced_begin

theorem finished_nothing {task : Chunk × Task} (finished : task.2.isFinished = true) :
    taskJobs env task = [] ∧ taskFailures env task = [] := by
  obtain ⟨chunk, task⟩ := task
  cases task <;> first | exact ⟨rfl, rfl⟩ | cases finished

/-- A completed run has performed the jobs of its plan and recorded their failures. -/
theorem completed_account {schedule : List Input} {final : State} {result : Except String Unit}
    (h : Completes env plan disk schedule final result) :
    (∃ ran : List Job, ran.Perm (plan.flatMap (chunkJobs env)) ∧
      final.shared.output.disk.file = ran.foldl Job.apply disk.file ∧
      final.shared.output.closed = ran.filterMap Job.closed?) ∧
    final.shared.failures.Perm (plan.flatMap (chunkFailures env)) ∧
    result = verdict final.shared.failures := by
  have balanced := run_balanced h.1
  obtain ⟨none_, finished, result⟩ := balanced.returned _ h.2
  obtain ⟨ran, jobs, file, closed⟩ := balanced.jobs
  have noJobs : final.tasks.flatMap (taskJobs env) = [] :=
    List.flatMap_eq_nil_iff.mpr (fun task member => (finished_nothing (finished task member)).1)
  have noFailures : final.tasks.flatMap (taskFailures env) = [] :=
    List.flatMap_eq_nil_iff.mpr (fun task member => (finished_nothing (finished task member)).2)
  refine ⟨⟨ran, ?_, file, closed⟩, ?_, result⟩
  · simpa [noJobs, none_] using jobs
  · simpa [noFailures, none_] using balanced.failures

end Run

end PolymarketIndexer.Backfill
