import Mathlib.Algebra.Ring.Nat
import PolymarketIndexer.Backfill.Accounting

/-! # A run can always be completed

No interleaving gets stuck: while a chunk is unfinished some task can take a step, if
need be after the limiter was refilled, and every such step leaves less to do.
-/

namespace PolymarketIndexer.Backfill

open Unordered Machine

variable (env : Env)

/-- Steps a chunk may still take once its logs are there. -/
def chunkWeight (chunk : Chunk) : Nat :=
  match env.getLogs chunk with
  | .error _ => 1
  | .ok logs => 2 * (group env.alloy logs).byEvent.entries.length + 2

def taskWeight (task : Chunk × Task) : Nat :=
  match task.2 with
  | .acquiring => chunkWeight env task.1 + 2
  | .fetching => chunkWeight env task.1 + 1
  | .fetchFailed _ => 1
  | .writing todo _ => 2 * todo.length + 2
  | .writeFailed _ todo _ => 2 * todo.length + 3
  | .missingMetadata _ => 1
  | .finished => 0

/-- What is left to do before the run can return. -/
def remaining (s : State) : Nat :=
  (s.waiting.map (fun chunk => chunkWeight env chunk + 3)).sum +
    (s.tasks.map (taskWeight env)).sum

variable {env} {plan : List Chunk} {disk : Disk}

/-- An unfinished task whose permit is there can step, and has less to do afterwards. -/
theorem task_progress {chunk : Chunk} {task : Task} {shared : Shared} (fits : task.Fits)
    (unfinished : task.isFinished = false) (permit : 0 < shared.limiter.available) :
    ∃ event task' shared', taskStep env chunk task shared event = some (task', shared') ∧
      taskWeight env (chunk, task') < taskWeight env (chunk, task) := by
  cases task with
  | acquiring =>
      refine ⟨.acquire, _, _, by rw [taskStep, if_pos permit], ?_⟩
      simp only [taskWeight]
      omega
  | fetching =>
      cases fetched : env.getLogs chunk with
      | error error =>
          refine ⟨.fetched (.asStored _), _, _, by simp only [taskStep, fetched]; rfl, ?_⟩
          simp only [taskWeight, chunkWeight, fetched]
          omega
      | ok logs =>
          refine ⟨.fetched (.asStored _), _, _, by simp only [taskStep, fetched]; rfl, ?_⟩
          have length := (@iterate_perm (.asStored _) (group env.alloy logs).byEvent).length_eq
          simp only [taskWeight, chunkWeight, fetched, length]
          omega
  | fetchFailed failure => exact ⟨.push, _, _, rfl, Nat.one_pos⟩
  | writing todo missing =>
      cases todo with
      | nil =>
          by_cases some_ : 0 < missing
          · exact ⟨.proceed, _, _, by rw [taskStep, if_pos some_], by simp only [taskWeight]; omega⟩
          · exact ⟨.proceed, _, _, by rw [taskStep, if_neg some_], by simp only [taskWeight]; omega⟩
      | cons entry todo =>
          obtain ⟨eventType, columns, rows⟩ := entry
          obtain ⟨task', shared', steps, -, next⟩ := @write_accounted _ chunk _ _ _ _ _ shared fits
          refine ⟨.proceed, task', shared', steps, ?_⟩
          rcases next with rfl | ⟨failure, rfl⟩
          · simp only [taskWeight, List.length_cons]
            omega
          · simp only [taskWeight, List.length_cons]
            omega
  | writeFailed failure todo missing =>
      exact ⟨.push, _, _, rfl, by simp only [taskWeight]; omega⟩
  | missingMetadata failure => exact ⟨.push, _, _, rfl, Nat.one_pos⟩
  | finished => cases unfinished

/-- The limiter can always be brought to hand out a permit. -/
theorem permit_available (rate : 0 < env.maxPerSecond) {s : State} (running : s.returned = none)
    (sound : s.shared.panicked = false) :
    ∃ inputs limiter, 0 < limiter.available ∧
      exec (step env) s inputs = some { s with shared.limiter := limiter } := by
  have enabled : ∀ limiter : RateLimiter,
      (({ s with shared.limiter := limiter } : State).returned.isSome ||
        ({ s with shared.limiter := limiter } : State).shared.panicked) = false := by
    intro limiter
    simp [running, sound]
  have read : ∀ available, step env { s with shared.limiter := ⟨available, none⟩ } .readPermits =
      some { s with shared.limiter := ⟨available, some available⟩ } := by
    intro available
    rw [step, if_neg (by simp [enabled])]
    rfl
  have add : ∀ available reading,
      step env { s with shared.limiter := ⟨available, some reading⟩ } .addPermits =
        some { s with shared.limiter :=
          ⟨available + if reading < env.maxPerSecond then env.maxPerSecond - reading else 0,
            none⟩ } := by
    intro available reading
    rw [step, if_neg (by simp [enabled])]
  -- a full refill from a limiter with no reading outstanding
  have refill : ∀ available, ∃ limiter : RateLimiter, 0 < limiter.available ∧
      exec (step env) { s with shared.limiter := ⟨available, none⟩ } [.readPermits, .addPermits] =
        some { s with shared.limiter := limiter } := by
    intro available
    refine ⟨_, ?_, (exec_cons _).mpr ⟨_, read available, (exec_cons _).mpr
      ⟨_, add available available, rfl⟩⟩⟩
    simp only
    split <;> omega
  obtain ⟨waiting, tasks, ⟨⟨available, reading⟩, output, failures, panicked⟩, returned⟩ := s
  cases reading with
  | none =>
      obtain ⟨limiter, positive, run⟩ := refill available
      exact ⟨_, limiter, positive, run⟩
  | some reading =>
      have first := add available reading
      obtain ⟨limiter, positive, run⟩ := refill
        (available + if reading < env.maxPerSecond then env.maxPerSecond - reading else 0)
      exact ⟨.addPermits :: [.readPermits, .addPermits], limiter, positive,
        (exec_cons _).mpr ⟨_, first, run⟩⟩

theorem remaining_set {s : State} {index : Nat} {chunk : Chunk} {task task' : Task}
    (found : s.tasks[index]? = some (chunk, task))
    (less : taskWeight env (chunk, task') < taskWeight env (chunk, task)) (shared : Shared) :
    remaining env { s with tasks := s.tasks.set index (chunk, task'), shared := shared } <
      remaining env s := by
  obtain ⟨before, after, tasks, set⟩ := set_split found
  simp only [remaining]
  rw [set, tasks]
  simp only [List.map_append, List.map_cons, List.sum_append, List.sum_cons]
  omega

/-- From a state that has not returned, some inputs lead to less work or to the return. -/
theorem state_progress (parallel : 0 < env.parallelism) (rate : 0 < env.maxPerSecond) {s : State}
    (balanced : Balanced env plan disk s) (running : s.returned = none) :
    ∃ inputs t, exec (step env) s inputs = some t ∧
      (t.returned.isSome = true ∨ (t.returned = none ∧ remaining env t < remaining env s)) := by
  have sound := balanced.panicked
  by_cases finished : s.tasks.all (fun task => task.2.isFinished) = true
  · cases first : s.waiting with
    | nil =>
        refine ⟨[.complete], { s with returned := some (verdict s.shared.failures) }, ?_, .inl rfl⟩
        apply (exec_cons _).mpr
        refine ⟨_, ?_, rfl⟩
        rw [step, if_neg (by simp [running, sound])]
        simp only [first, List.isEmpty_nil, finished, Bool.and_self, if_true]
    | cons chunk waiting =>
        have idle : s.active = 0 := by
          rw [State.active, List.length_eq_zero_iff, List.filter_eq_nil_iff]
          intro task member
          simp [List.all_eq_true.mp finished task member]
        refine ⟨[.launch], { s with waiting := waiting, tasks := s.tasks ++ [(chunk, .acquiring)] },
          ?_, .inr ⟨running, ?_⟩⟩
        · apply (exec_cons _).mpr
          refine ⟨_, ?_, rfl⟩
          rw [step, if_neg (by simp [running, sound])]
          simp only [first, idle, parallel, if_true]
        · simp only [remaining, first, List.map_append, List.map_cons, List.map_nil,
            List.sum_append, List.sum_cons, List.sum_nil, taskWeight]
          omega
  · simp only [Bool.not_eq_true, List.all_eq_false] at finished
    obtain ⟨⟨chunk, task⟩, member, unfinished⟩ := finished
    obtain ⟨index, inside, found⟩ := List.getElem_of_mem member
    have found : s.tasks[index]? = some (chunk, task) :=
      List.getElem?_eq_some_iff.mpr ⟨inside, found⟩
    obtain ⟨inputs, limiter, permit, refilled⟩ := permit_available rate running sound
    obtain ⟨event, task', shared', stepped, less⟩ :=
      @task_progress env chunk task { s.shared with limiter := limiter }
        (balanced.fits _ member) (by simpa using unfinished) permit
    refine ⟨inputs ++ [.task index event],
      { s with tasks := s.tasks.set index (chunk, task'), shared := shared' }, ?_,
      .inr ⟨running, remaining_set found less shared'⟩⟩
    apply (exec_snoc _).mpr
    refine ⟨_, refilled, ?_⟩
    rw [step, if_neg (by simp [running, sound])]
    simp only [found, stepped, Option.map_some]

/-- Every interleaving, however far it got, can be continued to the return of the run. -/
theorem completes_from (parallel : 0 < env.parallelism) (rate : 0 < env.maxPerSecond)
    {schedule : List Input} {s : State}
    (run : exec (step env) (begin_ env plan disk) schedule = some s) :
    ∃ more final result, Completes env plan disk (schedule ++ more) final result := by
  induction measure : remaining env s using Nat.strongRecOn generalizing schedule s with
  | ind n ih =>
      cases returned : s.returned with
      | some result => exact ⟨[], s, result, by rw [List.append_nil]; exact ⟨run, returned⟩⟩
      | none =>
          obtain ⟨inputs, t, reached, outcome⟩ :=
            state_progress parallel rate (run_balanced run) returned
          have run' := (exec_append _).mpr ⟨s, run, reached⟩
          rcases outcome with finished | ⟨-, less⟩
          · obtain ⟨result, returned'⟩ := Option.isSome_iff_exists.mp finished
            exact ⟨inputs, t, result, run', returned'⟩
          · obtain ⟨more, final, result, completes⟩ := ih _ (measure ▸ less) run' rfl
            exact ⟨inputs ++ more, final, result, by rw [← List.append_assoc]; exact completes⟩

end PolymarketIndexer.Backfill
