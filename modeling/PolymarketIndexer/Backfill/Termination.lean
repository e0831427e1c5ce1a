import PolymarketIndexer.Backfill.Confluence
import PolymarketIndexer.Backfill.Progress
import PolymarketIndexer.Library.Completion

/-! # The backfill comes to an end

Each step of a task, and the start of one, leaves less to do, and the refill leaves as much. A chunk
has a file for each event type at most, so what a run can do is bounded by the number of its chunks,
whatever the provider and the file system answer.
-/

namespace PolymarketIndexer.Backfill

open Machine

variable (env : Env)

/-- Everything but the refill. -/
def Input.works : Input → Bool
  | .readPermits | .addPermits => false
  | _ => true

/-- The steps a run may still take besides the refill. -/
def stepsLeft (s : State) : Nat := remaining env s + if s.returned.isSome then 0 else 1

variable {env} {plan : List Chunk} {disk : Disk}

/-- A chunk has no more groups than there are event types. -/
theorem group_few (alloy : Alloy) (logs : List Log) :
    (group alloy logs).byEvent.entries.length ≤ EventType.all.length := by
  have known : (group alloy logs).byEvent.keys ⊆ EventType.all.map EventType.name := by
    intro E member
    obtain ⟨⟨columns, rows⟩, found⟩ := Option.isSome_iff_exists.mp
      (AList.lookup_isSome.mpr (AList.mem_keys.mp member))
    obtain ⟨-, -, kind, name, -⟩ := group_entry found
    exact name ▸ List.mem_map_of_mem (EventType.mem_all kind)
  have few := (List.subperm_of_subset (group alloy logs).byEvent.keys_nodup known).length_le
  simpa [AList.keys, List.keys] using few

theorem chunkWeight_le (chunk : Chunk) : chunkWeight env chunk ≤ 22 := by
  unfold chunkWeight
  split
  · decide
  · rename_i logs fetched
    have few := group_few env.alloy logs
    have all : EventType.all.length = 10 := rfl
    omega

/-- Whatever a task does, it has less to do afterwards. -/
theorem taskStep_lowers {chunk : Chunk} {task task' : Task} {shared shared' : Shared}
    {event : Event} (moved : taskStep env chunk task shared event = some (task', shared')) :
    taskWeight env (chunk, task') < taskWeight env (chunk, task) := by
  unfold taskStep at moved
  split at moved
  · split at moved
    · cases moved
      simp only [taskWeight]
      omega
    · cases moved
  · rename_i order
    split at moved
    · rename_i error failed
      cases moved
      simp only [taskWeight, chunkWeight, failed]
      omega
    · rename_i logs fetched
      cases moved
      have length := (@iterate_perm order (group env.alloy logs).byEvent).length_eq
      simp only [taskWeight, chunkWeight, fetched, length]
      omega
  · split at moved <;>
    · cases moved
      simp only [taskWeight, List.length_cons]
      omega
  · split at moved <;>
    · cases moved
      simp only [taskWeight]
      omega
  · cases moved
    simp only [taskWeight]
    omega
  · cases moved
    simp only [taskWeight]
    omega
  · cases moved
    simp only [taskWeight]
    omega
  · cases moved

theorem step_left {s t : State} {input : Input} (moved : step env s input = some t) :
    (input.works = true → stepsLeft env t < stepsLeft env s) ∧
      (input.works = false → stepsLeft env t = stepsLeft env s ∧ t.returned = s.returned) := by
  obtain ⟨running, -, cases_⟩ := step_cases moved
  rcases cases_ with ⟨chunk, waiting, rfl, first, -, rfl⟩ |
    ⟨index, event, chunk, task, task', shared, rfl, found, stepped, rfl⟩ |
    ⟨limiter, refill, rfl⟩ | ⟨rfl, none_, finished, rfl⟩
  · refine ⟨fun _ => ?_, fun idle => by cases idle⟩
    simp only [stepsLeft, remaining, first, List.map_append, List.map_cons, List.map_nil,
      List.sum_append, List.sum_cons, List.sum_nil, taskWeight]
    omega
  · refine ⟨fun _ => ?_, fun idle => by cases idle⟩
    exact Nat.add_lt_add_right (remaining_set found (taskStep_lowers stepped) shared) _
  · rcases refill with rfl | rfl
    · exact ⟨fun works => (by cases works), fun _ => ⟨rfl, rfl⟩⟩
    · exact ⟨fun works => (by cases works), fun _ => ⟨rfl, rfl⟩⟩
  · refine ⟨fun _ => ?_, fun idle => by cases idle⟩
    simp [stepsLeft, remaining, running]

theorem work_lowers : Lowers (step env) (fun _ => True) Input.works (stepsLeft env) where
  keeps _ _ _ _ _ := trivial
  lowers _ _ _ _ works moved := (step_left moved).1 works

theorem begin_left : stepsLeft env (begin_ env plan disk) ≤ 25 * plan.length + 1 := by
  have total : ∀ chunks : List Chunk,
      (chunks.map (fun chunk => chunkWeight env chunk + 3)).sum ≤ 25 * chunks.length := by
    intro chunks
    induction chunks with
    | nil => exact Nat.zero_le _
    | cons chunk chunks ih =>
        have few := @chunkWeight_le env chunk
        rw [List.map_cons, List.sum_cons, List.length_cons]
        omega
  have waiting := total plan
  simp only [stepsLeft, remaining, begin_, List.map_nil, List.sum_nil, Option.isSome_none]
  simpa using waiting

/-- A run that has not returned has work to do that it can do, if need be after a refill. -/
theorem work_possible (parallel : 0 < env.parallelism) (rate : 0 < env.maxPerSecond) {s : State}
    (balanced : Balanced env plan disk s) (running : s.returned = none) :
    ∃ more t, exec (step env) s more = some t ∧ 0 < more.countP Input.works := by
  obtain ⟨more, t, reached, progress⟩ := state_progress parallel rate balanced running
  refine ⟨more, t, reached, Nat.pos_of_ne_zero fun idle => ?_⟩
  have rests : stepsLeft env t = stepsLeft env s ∧ t.returned = s.returned := by
    have keeps : ∀ (a : State) (input : Input) (b : State), input.works = false →
        (stepsLeft env a = stepsLeft env s ∧ a.returned = s.returned) → step env a input = some b →
        stepsLeft env b = stepsLeft env s ∧ b.returned = s.returned := by
      intro a input b rest before moved
      obtain ⟨left, returned⟩ := (step_left moved).2 rest
      exact ⟨left.trans before.1, returned.trans before.2⟩
    refine exec_invariant (step env) keeps ?_ reached ⟨rfl, rfl⟩
    intro input member
    simpa using List.countP_eq_zero.mp idle input member
  rcases progress with returned | ⟨returned, less⟩
  · rw [rests.2, running] at returned
    cases returned
  · have same := rests.1
    simp only [stepsLeft, running, returned, Option.isSome_none, Bool.false_eq_true,
      if_false] at same
    omega

/-- However a run over `n` chunks is scheduled, it takes at most `25 n + 1` steps besides the
refill's, and until it has returned it can take another one. So a run that is not held up for
ever returns. -/
theorem backfill_ends (parallel : 0 < env.parallelism) (rate : 0 < env.maxPerSecond)
    {schedule : List Input} {s : State}
    (run : exec (step env) (begin_ env plan disk) schedule = some s) :
    schedule.countP Input.works + stepsLeft env s ≤ 25 * plan.length + 1 ∧
      (s.returned = none →
        ∃ more t, exec (step env) s more = some t ∧ 0 < more.countP Input.works) ∧
      (schedule.countP Input.works = 25 * plan.length + 1 → s.returned.isSome = true) := by
  have idle : ∀ (a : State) (input : Input) (b : State), True → input.works = false →
      step env a input = some b → stepsLeft env b ≤ stepsLeft env a :=
    fun _ _ _ _ rest moved => ((step_left moved).2 rest).1.le
  have bound := (work_lowers.bounds idle trivial run).trans begin_left
  refine ⟨bound, work_possible parallel rate (run_balanced run), fun all => ?_⟩
  cases returned : s.returned with
  | some result => rfl
  | none =>
      simp only [stepsLeft, returned, Option.isSome_none, Bool.false_eq_true, if_false] at bound
      omega

section Example

/-- Two chunks are under way, one of them with its permit. -/
theorem backfill_ends_launched : ∃ s,
    exec (step (halfFailing.env twoChunks watched))
      (begin_ (halfFailing.env twoChunks watched) [(10, 14), (15, 19)] Disk.empty)
      [.launch, .launch, .task 0 .acquire] = some s ∧
    3 + stepsLeft (halfFailing.env twoChunks watched) s ≤ 51 ∧
    ∃ more t, exec (step (halfFailing.env twoChunks watched)) s more = some t ∧
      0 < more.countP Input.works := by
  obtain ⟨s, run, running⟩ : ∃ s,
      exec (step (halfFailing.env twoChunks watched))
        (begin_ (halfFailing.env twoChunks watched) [(10, 14), (15, 19)] Disk.empty)
        [.launch, .launch, .task 0 .acquire] = some s ∧ s.returned = none := ⟨_, rfl, rfl⟩
  obtain ⟨bound, goesOn, -⟩ := backfill_ends (by decide) (by decide) run
  exact ⟨s, run, bound, goesOn running⟩

end Example

end PolymarketIndexer.Backfill
