import PolymarketIndexer.Backfill.Fairness
import PolymarketIndexer.Backfill.Planning

/-! # What a backfill asks its provider for

Chunks are started in the order of the plan, each by one task, and a task asks for its chunk once.
So whatever is answered and however the tasks are interleaved, no block is asked for twice, and a
run that returns has asked for each block of its range.
-/

namespace PolymarketIndexer.Backfill

namespace QueuedState

/-- The chunks the provider was asked for, in the order of the calls. -/
def asked (s : QueuedState) : List Chunk :=
  s.called.filterMap (fun index => s.run.tasks[index]?.map Prod.fst)

/-- A call that was made and is not answered yet. -/
def awaiting (s : QueuedState) (index : Nat) : Bool :=
  match s.run.tasks[index]? with
  | some (_, .fetching) => s.called.contains index
  | _ => false

def inFlight (s : QueuedState) : Nat := s.called.countP s.awaiting

end QueuedState

section Launching

variable {env : Env} {plan : List Chunk} {disk : Disk}

theorem taskStep_unfinished {chunk : Chunk} {task task' : Task} {shared shared' : Shared}
    {event : Event} (moved : taskStep env chunk task shared event = some (task', shared')) :
    task.isFinished = false := by
  cases task with
  | finished => cases event <;> cases moved
  | _ => rfl

/-- Started and waiting chunks are the plan, and no more than `parallelism` are worked on. -/
structure Launched (env : Env) (plan : List Chunk) (s : State) : Prop where
  order : s.tasks.map Prod.fst ++ s.waiting = plan
  active : s.active ≤ env.parallelism

theorem launched_begin : Launched env plan (begin_ env plan disk) := ⟨rfl, Nat.zero_le _⟩

theorem step_launched {s t : State} {input : Input} (before : Launched env plan s)
    (moved : step env s input = some t) : Launched env plan t := by
  obtain ⟨order, active⟩ := before
  obtain ⟨-, -, cases_⟩ := step_cases moved
  rcases cases_ with ⟨chunk, waiting, -, first, room, rfl⟩ |
    ⟨index, event, chunk, task, task', shared, -, found, stepped, rfl⟩ |
    ⟨limiter, -, rfl⟩ | ⟨-, -, -, rfl⟩
  · refine ⟨?_, ?_⟩
    · rw [← order, first, List.map_append]
      simp
    · have one : ([(chunk, Task.acquiring)].filter (fun task => !task.2.isFinished)).length = 1 :=
        rfl
      rw [State.active] at room ⊢
      rw [List.filter_append, List.length_append, one]
      omega
  · obtain ⟨earlier, later, tasks, set⟩ := set_split found
    refine ⟨?_, ?_⟩
    · change (s.tasks.set index (chunk, task')).map Prod.fst ++ s.waiting = plan
      rw [set, ← order, tasks]
      simp
    · have was : (!task.isFinished) = true := by rw [taskStep_unfinished stepped]; rfl
      rw [State.active, tasks] at active
      rw [State.active, set]
      simp only [List.filter_append, List.filter_cons, was, if_true, List.length_append,
        List.length_cons] at active ⊢
      split
      · exact active
      · omega
  · exact ⟨order, active⟩
  · exact ⟨order, active⟩

theorem run_launched {schedule : List Input} {s : State}
    (run : Machine.exec (step env) (begin_ env plan disk) schedule = some s) :
    Launched env plan s :=
  Machine.exec_invariant (step env) (P := Launched env plan)
    (fun _ _ _ (_ : True) before moved => step_launched before moved) (fun _ _ => trivial) run
    launched_begin

end Launching

section Asking

variable {env : Env} {plan : List Chunk} {disk : Disk}

/-- A task that is past its answer made its call. -/
def Answered (called : List Nat) (s : State) : Prop :=
  ∀ index chunk task, s.tasks[index]? = some (chunk, task) → task.hasPermit = true →
    task = .fetching ∨ index ∈ called

/-- Only an answer takes a task past its call. -/
theorem taskStep_answered {chunk : Chunk} {task task' : Task} {shared shared' : Shared}
    {event : Event} (moved : taskStep env chunk task shared event = some (task', shared')) :
    (task = .acquiring ∧ task' = .fetching) ∨ (∃ order, event = .fetched order) ∨
      (task.hasPermit = true ∧ task ≠ .fetching) := by
  cases task with
  | acquiring =>
      cases event with
      | acquire =>
          rw [taskStep] at moved
          split at moved
          · cases moved
            exact .inl ⟨rfl, rfl⟩
          · cases moved
      | _ => cases moved
  | fetching =>
      cases event with
      | fetched order => exact .inr (.inl ⟨order, rfl⟩)
      | _ => cases moved
  | _ => exact .inr (.inr ⟨rfl, by simp⟩)

theorem step_answered {called : List Nat} {s t : State} {input : Input}
    (before : Answered called s) (allowed : input.awaits.all (called.contains ·) = true)
    (moved : step env s input = some t) : Answered called t := by
  obtain ⟨-, -, cases_⟩ := step_cases moved
  rcases cases_ with ⟨chunk, waiting, -, -, -, rfl⟩ |
    ⟨index, event, chunk, task, task', shared, rfl, found, stepped, rfl⟩ |
    ⟨limiter, -, rfl⟩ | ⟨-, -, -, rfl⟩
  · intro other chunk' task' here permit
    rw [List.getElem?_append] at here
    split at here
    · exact before other chunk' task' here permit
    · obtain ⟨-, rfl⟩ := Prod.mk.inj (List.mem_singleton.mp (List.mem_of_getElem? here))
      cases permit
  · intro other chunk' task₁ here permit
    rw [List.getElem?_set] at here
    split at here
    · rename_i same
      subst same
      split at here
      · obtain ⟨-, rfl⟩ := Prod.mk.inj (Option.some.inj here)
        rcases taskStep_answered stepped with ⟨-, rfl⟩ | ⟨order, rfl⟩ | ⟨past, notFetching⟩
        · exact .inl rfl
        · exact .inr (by simpa [Input.awaits] using allowed)
        · exact .inr ((before index chunk task found past).resolve_left notFetching)
      · cases here
    · exact before other chunk' task₁ here permit
  · exact before
  · exact before

theorem queued_awaits {s t : QueuedState} {plain : Input}
    (moved : queuedStep env s (.run plain) = some t) :
    plain.awaits.all (s.called.contains ·) = true := by
  simp only [queuedStep] at moved
  split at moved
  · rename_i allowed
    exact (Bool.and_eq_true_iff.mp allowed).2
  · cases moved

theorem queued_answered {inputs : List QueuedInput} {s : QueuedState}
    (run : Machine.exec (queuedStep env) (queuedBegin env plan disk) inputs = some s) :
    Answered s.called s.run := by
  have keeps : ∀ (a : QueuedState) (input : QueuedInput) (b : QueuedState), True →
      Answered a.called a.run → queuedStep env a input = some b → Answered b.called b.run := by
    intro a input b _ before moved
    rcases queued_cases moved with ⟨limited, limiter, run, rfl, -, -, through, rfl⟩ |
      ⟨index, chunk, -, -, -, rfl⟩ | ⟨plain, run, rfl, -, stepped, same⟩
    · have through_ : ∀ (u : State) (input : Input) (v : State), input.awaits = none →
          Answered a.called u → step env u input = some v → Answered a.called v :=
        fun _ _ _ silent before moved => step_answered before (by rw [silent]; rfl) moved
      refine Machine.exec_invariant _ through_ ?_ through before
      intro input member
      rcases List.mem_append.mp member with refill | woken
      · cases limited <;> simp only [refillInputs, List.mem_singleton, List.not_mem_nil] at refill
        · rw [refill]; rfl
        · rw [refill]; rfl
      · obtain ⟨index, -, rfl⟩ := List.mem_map.mp woken
        rfl
    · intro index' chunk' task found permit
      exact (before index' chunk' task found permit).imp_right (List.mem_append_left _)
    · have allowed := queued_awaits moved
      subst same
      exact step_answered before allowed stepped
  refine Machine.exec_invariant _ keeps (fun _ _ => trivial) run ?_
  intro index chunk task found
  cases found

theorem called_launched {inputs : List QueuedInput} {s : QueuedState}
    (run : Machine.exec (queuedStep env) (queuedBegin env plan disk) inputs = some s) :
    s.called ⊆ List.range s.run.tasks.length := by
  intro index member
  obtain ⟨chunk, task, found, -⟩ := granted_hasPermit run index ((queued_issued run).granted member)
  exact List.mem_range.mpr (List.getElem?_eq_some_iff.mp found).1

theorem range_picks {α : Type} (xs : List α) : (List.range xs.length).filterMap (xs[·]?) = xs := by
  induction xs using List.reverseRecOn with
  | nil => rfl
  | append_singleton xs x ih =>
      rw [List.length_append, List.length_singleton, List.range_succ, List.filterMap_append]
      have earlier : (List.range xs.length).filterMap ((xs ++ [x])[·]?) =
          (List.range xs.length).filterMap (xs[·]?) := by
        apply List.filterMap_congr
        intro index member
        exact List.getElem?_append_left (List.mem_range.mp member)
      rw [earlier, ih]
      simp

/-- What was asked for is part of what was started. -/
theorem asked_launched {inputs : List QueuedInput} {s : QueuedState}
    (run : Machine.exec (queuedStep env) (queuedBegin env plan disk) inputs = some s) :
    s.asked.Subperm (s.run.tasks.map Prod.fst) := by
  obtain ⟨picked, same, part⟩ :=
    List.subperm_of_subset (queued_issued run).once (called_launched run)
  have range := range_picks (s.run.tasks.map Prod.fst)
  rw [List.length_map] at range
  simp only [List.getElem?_map] at range
  refine ⟨_, same.filterMap _, ?_⟩
  rw [← range]
  exact part.filterMap _

/-- A run that has returned made every call. -/
theorem asked_all {inputs : List QueuedInput} {s : QueuedState}
    (run : Machine.exec (queuedStep env) (queuedBegin env plan disk) inputs = some s)
    (returned : s.run.returned.isSome = true) : s.asked.Perm plan := by
  obtain ⟨schedule, through⟩ := queued_run run
  obtain ⟨result, isResult⟩ := Option.isSome_iff_exists.mp returned
  obtain ⟨started, finished, -⟩ := (run_balanced through).returned result isResult
  have all : List.range s.run.tasks.length ⊆ s.called := by
    intro index member
    obtain ⟨⟨chunk, task⟩, found⟩ : ∃ task, s.run.tasks[index]? = some task :=
      ⟨_, List.getElem?_eq_getElem (List.mem_range.mp member)⟩
    have done : task.isFinished = true := finished _ (List.mem_of_getElem? found)
    have permit : task.hasPermit = true := by
      cases task <;> first | rfl | cases done
    rcases queued_answered run index chunk task found permit with rfl | made
    · cases done
    · exact made
  have calls : s.called.Perm (List.range s.run.tasks.length) :=
    (List.perm_ext_iff_of_nodup (queued_issued run).once List.nodup_range).mpr
      (fun index => ⟨fun member => called_launched run member, fun member => all member⟩)
  have range := range_picks (s.run.tasks.map Prod.fst)
  rw [List.length_map] at range
  simp only [List.getElem?_map] at range
  have order := (run_launched through).order
  rw [started, List.append_nil] at order
  rw [← order, ← range]
  exact calls.filterMap _

/-- Every open call is that of a task at work, and each task has one. -/
theorem inFlight_le {inputs : List QueuedInput} {s : QueuedState}
    (run : Machine.exec (queuedStep env) (queuedBegin env plan disk) inputs = some s) :
    s.inFlight ≤ env.parallelism := by
  obtain ⟨schedule, through⟩ := queued_run run
  have active := (run_launched through).active
  let working : Nat → Bool := fun index =>
    s.run.tasks[index]?.any (fun task => !task.2.isFinished)
  have counted : (List.range s.run.tasks.length).countP working = s.run.active := by
    have range := range_picks s.run.tasks
    rw [State.active, ← List.countP_eq_length_filter]
    conv_rhs => rw [← range]
    rw [List.countP_filterMap]
    apply List.countP_congr
    intro index _
    cases found : s.run.tasks[index]? <;> simp [working, found]
  have within : s.called.countP working ≤ (List.range s.run.tasks.length).countP working :=
    List.Subperm.countP_le _
      (List.subperm_of_subset (queued_issued run).once (called_launched run))
  have weaker : s.inFlight ≤ s.called.countP working := by
    apply List.countP_mono_left
    intro index _ awaits
    simp only [QueuedState.awaiting] at awaits
    split at awaits
    · rename_i chunk found
      simp [working, found, Task.isFinished]
    · cases awaits
  omega

end Asking

section Blocks

variable {env : Env} {plan : List Chunk} {disk : Disk}

/-- At any moment of any schedule no more calls are open than `parallelism`, and a run that has
returned, whatever it failed at, asked for each chunk of its plan. When planning met no overflow, no
block was asked for twice, none outside the range, and in the end each block of it. -/
theorem blocks_asked_once {inputs : List QueuedInput} {s : QueuedState}
    (run : Machine.exec (queuedStep env) (queuedBegin env plan disk) inputs = some s) :
    s.inFlight ≤ env.parallelism ∧ s.asked.Subperm plan ∧
    (s.run.returned.isSome = true → s.asked.Perm plan) ∧
    ∀ start endBlock size : UInt64, 1 ≤ size → start ≤ endBlock →
      ChunkRanges .checked start endBlock size plan →
      (∀ chunk ∈ s.asked, start ≤ chunk.1 ∧ chunk.1 ≤ chunk.2 ∧ chunk.2 ≤ endBlock ∧
        chunk.2.toNat < chunk.1.toNat + size.toNat) ∧
      ∀ block,
        s.asked.countP (fun chunk => InChunk block chunk) ≤
          (if start ≤ block ∧ block ≤ endBlock then 1 else 0) ∧
        (s.run.returned.isSome = true → s.asked.countP (fun chunk => InChunk block chunk) =
          if start ≤ block ∧ block ≤ endBlock then 1 else 0) := by
  obtain ⟨schedule, through⟩ := queued_run run
  have part : s.asked.Subperm plan := by
    refine (asked_launched run).trans (List.Sublist.subperm ?_)
    rw [← (run_launched through).order]
    exact List.sublist_append_left _ _
  refine ⟨inFlight_le run, part, asked_all run, ?_⟩
  intro start endBlock size sized ordered planned
  have sized := UInt64.le_iff_toNat_le.mp sized
  have ordered := UInt64.le_iff_toNat_le.mp ordered
  have cut := (chunkRanges_cut sized ordered planned).1
  have count := chunkRanges_count sized ordered planned
  simp only [← List.countP_eq_length_filter] at count
  refine ⟨?_, fun block => ⟨count block ▸ part.countP_le _, fun returned => ?_⟩⟩
  · intro chunk member
    have range : bounds chunk ∈ plan.map bounds := List.mem_map_of_mem (part.subset member)
    obtain ⟨low, within, high⟩ := Tiling.tiles_bounds cut.tiles _ range
    exact ⟨UInt64.le_iff_toNat_le.mpr low, UInt64.le_iff_toNat_le.mpr within,
      UInt64.le_iff_toNat_le.mpr (Nat.le_of_lt_succ high), cut.narrow _ range⟩
  · rw [← count block]
    exact (asked_all run returned).countP_eq _

end Blocks

section Example

/-- Both chunks were asked for, and the first answer is not there yet. -/
theorem blocks_asked_once_both : ∃ s,
    Machine.exec (queuedStep onePerSecond)
      (queuedBegin onePerSecond [(10, 14), (15, 19)] Disk.empty)
      [.run .launch, .run .launch, .limiter (.acquire 0), .limiter (.acquire 1), .call 0,
        .limiter .readPermits, .limiter .addPermits, .call 1] = some s ∧
    s.asked = [(10, 14), (15, 19)] ∧ s.inFlight = 2 ∧ s.inFlight ≤ onePerSecond.parallelism ∧
    s.asked.countP (fun chunk => InChunk 12 chunk) ≤ 1 := by
  obtain ⟨s, run, asked, inFlight⟩ : ∃ s,
      Machine.exec (queuedStep onePerSecond)
        (queuedBegin onePerSecond [(10, 14), (15, 19)] Disk.empty)
        [.run .launch, .run .launch, .limiter (.acquire 0), .limiter (.acquire 1), .call 0,
          .limiter .readPermits, .limiter .addPermits, .call 1] = some s ∧
      s.asked = [(10, 14), (15, 19)] ∧ s.inFlight = 2 := ⟨_, rfl, rfl, rfl⟩
  obtain ⟨open_, -, -, blocks⟩ := blocks_asked_once run
  have within := blocks 10 19 5 (by decide) (by decide) (chunkRanges_of_run 3 rfl)
  exact ⟨s, run, asked, inFlight, open_, (within.2 12).1⟩

end Example

end PolymarketIndexer.Backfill
