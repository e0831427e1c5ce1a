import PolymarketIndexer.Backfill.Queue

/-! # Waiting for a permit

Nobody is overtaken in the line of the limiter, and while somebody waits each refill moves the
line on by `max_per_second`, but for the one that had read already. So how long a task waits is
decided by its place in the line alone.
-/

namespace PolymarketIndexer.Backfill

/-- What a number of refills hands out to a line, when the first may have been read before. -/
def owed (maxPerSecond : Nat) : Option Nat → Nat → Nat
  | none, refills => refills * maxPerSecond
  | some _, 0 => 0
  | some available, refills + 1 => (maxPerSecond - available) + refills * maxPerSecond

theorem owed_zero (maxPerSecond : Nat) (reading : Option Nat) :
    owed maxPerSecond reading 0 = 0 := by
  cases reading with
  | none => exact Nat.zero_mul _
  | some available => rfl

/-- A reading of an empty limiter promises all that one after it would. -/
theorem owed_read (maxPerSecond refills : Nat) :
    owed maxPerSecond (some 0) refills = owed maxPerSecond none refills := by
  cases refills with
  | zero => rw [owed_zero, owed_zero]
  | succ refills => rw [owed, owed, Nat.succ_mul, Nat.sub_zero, Nat.add_comm]

theorem le_owed (maxPerSecond : Nat) (reading : Option Nat) (refills : Nat) :
    (refills - 1) * maxPerSecond ≤ owed maxPerSecond reading refills := by
  cases reading with
  | none => exact Nat.mul_le_mul_right _ (Nat.sub_le _ _)
  | some available =>
      cases refills with
      | zero => rw [Nat.zero_sub, Nat.zero_mul]; exact Nat.zero_le _
      | succ refills => exact Nat.le_add_left _ _

section Line

variable {ι : Type*} {maxPerSecond : Nat} {limiter limiter' : LimiterState ι}
  {ahead behind : List ι} {who : ι}

/-- A step of the limiter seen from a place in its line. -/
inductive LineMoves (maxPerSecond : Nat) (limiter limiter' : LimiterState ι) (ahead : List ι)
    (who : ι) : LimiterInput ι → Prop where
  | joined {other : ι} {behind : List ι}
      (line : limiter'.semaphore.waiters = ahead ++ who :: behind)
      (reading : limiter'.reading = limiter.reading)
      (granted : limiter'.granted = limiter.granted) :
      LineMoves maxPerSecond limiter limiter' ahead who (.acquire other)
  | read {behind : List ι} (line : limiter'.semaphore.waiters = ahead ++ who :: behind)
      (idle : limiter.reading = none) (reading : limiter'.reading = some 0)
      (granted : limiter'.granted = limiter.granted) :
      LineMoves maxPerSecond limiter limiter' ahead who .readPermits
  | served {available : Nat} (pending : limiter.reading = some available)
      (enough : ahead.length < maxPerSecond - available)
      (granted : limiter.granted ++ (ahead ++ [who]) <+: limiter'.granted) :
      LineMoves maxPerSecond limiter limiter' ahead who .addPermits
  | advanced {available : Nat} {woken rest behind : List ι}
      (pending : limiter.reading = some available)
      (count : woken.length = maxPerSecond - available) (split : ahead = woken ++ rest)
      (line : limiter'.semaphore.waiters = rest ++ who :: behind)
      (reading : limiter'.reading = none) (granted : limiter'.granted = limiter.granted ++ woken) :
      LineMoves maxPerSecond limiter limiter' ahead who .addPermits

/-- While somebody waits there is no permit, so a call joins the line and a refill serves it. -/
theorem line_moves {input : LimiterInput ι}
    (line : limiter.semaphore.waiters = ahead ++ who :: behind)
    (moved : LimiterState.step maxPerSecond limiter input = some limiter') :
    LineMoves maxPerSecond limiter limiter' ahead who input := by
  have empty : limiter.semaphore.permits = 0 := by
    by_contra some_
    have idle := limiter.semaphore.served (Nat.pos_of_ne_zero some_)
    rw [line] at idle
    simp at idle
  cases limiter_moves moved with
  | granted found => omega
  | @queued other permits waiters reading granted =>
      have longer : limiter'.semaphore.waiters = ahead ++ who :: (behind ++ [other]) := by
        rw [waiters, line, List.append_assoc, List.cons_append]
      exact .joined longer reading granted
  | read idle semaphore reading granted =>
      exact .read (by rw [semaphore, line]) idle (by rw [reading, empty]) granted
  | @added available woken pending permits waiters reading granted =>
      rw [line] at waiters
      have passes : ∀ rest, ahead = woken ++ rest →
          limiter'.semaphore.waiters = rest ++ who :: behind →
          LineMoves maxPerSecond limiter limiter' ahead who .addPermits := by
        intro rest split left
        have none_ : limiter'.semaphore.permits = 0 := by
          by_contra some_
          have idle := limiter'.semaphore.served (Nat.pos_of_ne_zero some_)
          rw [left] at idle
          simp at idle
        exact .advanced pending (by omega) split left reading granted
      rcases List.append_eq_append_iff.mp waiters with ⟨rest, split, left⟩ | ⟨more, split, left⟩
      · exact passes rest split left
      · cases more with
        | nil => exact passes [] (by rw [split, List.append_nil, List.append_nil]) left.symm
        | cons first more =>
            obtain ⟨rfl, -⟩ := List.cons.inj left
            have longer : woken.length = ahead.length + (more.length + 1) := by
              rw [split, List.length_append, List.length_cons]
            refine .served pending (by omega) ?_
            rw [granted, split]
            exact ⟨more, by simp⟩

theorem granted_grow {inputs : List (LimiterInput ι)}
    (run : Machine.exec (LimiterState.step maxPerSecond) limiter inputs = some limiter') :
    limiter.granted <+: limiter'.granted := by
  have keeps : ∀ (a : LimiterState ι) (input : LimiterInput ι) (b : LimiterState ι), True →
      limiter.granted <+: a.granted → LimiterState.step maxPerSecond a input = some b →
      limiter.granted <+: b.granted := by
    intro a input b _ before moved
    refine before.trans ?_
    cases limiter_moves moved with
    | granted found permits waiters reading granted => exact granted ▸ List.prefix_append _ _
    | queued permits waiters reading granted => exact granted ▸ List.prefix_refl _
    | read idle semaphore reading granted => exact granted ▸ List.prefix_refl _
    | added pending permits waiters reading granted => exact granted ▸ List.prefix_append _ _
  exact Machine.exec_invariant _ keeps (fun _ _ => trivial) run (List.prefix_refl _)

/-- Who waits is served once the refills owe the line more than those ahead; until then the
line has moved on by what they owe. -/
theorem line_runs {inputs : List (LimiterInput ι)}
    (line : limiter.semaphore.waiters = ahead ++ who :: behind)
    (run : Machine.exec (LimiterState.step maxPerSecond) limiter inputs = some limiter') :
    let due := owed maxPerSecond limiter.reading (inputs.countP LimiterInput.refills)
    (ahead.length < due → limiter.granted ++ (ahead ++ [who]) <+: limiter'.granted) ∧
      (due ≤ ahead.length → ∃ woken rest behind, ahead = woken ++ rest ∧ woken.length = due ∧
        limiter'.semaphore.waiters = rest ++ who :: behind ∧
        limiter'.granted = limiter.granted ++ woken) := by
  induction inputs generalizing limiter ahead behind with
  | nil =>
      cases run
      rw [List.countP_nil, owed_zero]
      exact ⟨fun impossible => absurd impossible (Nat.not_lt_zero _),
        fun _ => ⟨[], ahead, behind, rfl, rfl, line, (List.append_nil _).symm⟩⟩
  | cons input inputs ih =>
      obtain ⟨next_, first, rest⟩ := (Machine.exec_cons _).mp run
      cases line_moves line first with
      | joined line reading granted =>
          have later := ih line rest
          rw [reading, granted] at later
          exact later
      | read line idle reading granted =>
          have later := ih line rest
          rw [reading, granted, owed_read, ← idle] at later
          exact later
      | @served available pending enough granted =>
          have served := granted.trans (granted_grow rest)
          rw [List.countP_cons_of_pos rfl, pending, owed]
          exact ⟨fun _ => served, fun late => by omega⟩
      | @advanced available woken tail behind pending count split line reading granted =>
          obtain ⟨soon, late⟩ := ih line rest
          have length : ahead.length = woken.length + tail.length := by
            rw [split, List.length_append]
          rw [List.countP_cons_of_pos rfl, pending, owed]
          rw [reading, owed] at soon late
          refine ⟨fun enough => ?_, fun short => ?_⟩
          · have served := soon (by omega)
            rw [granted] at served
            simpa [split] using served
          · obtain ⟨more, left, behind', split', due, line', granted'⟩ := late (by omega)
            refine ⟨woken ++ more, left, behind', ?_, ?_, line', ?_⟩
            · rw [split, split', List.append_assoc]
            · rw [List.length_append, due, count]
            · rw [granted', granted, List.append_assoc]

end Line

section Tasks

variable {env : Env} {plan : List Chunk} {disk : Disk}

def HasPermit (s : State) (index : Nat) : Prop :=
  ∃ chunk task, s.tasks[index]? = some (chunk, task) ∧ task.hasPermit = true

/-- No step takes a task back to its `acquire`. -/
theorem taskStep_advances {chunk : Chunk} {task task' : Task} {shared shared' : Shared}
    {event : Event} (moved : taskStep env chunk task shared event = some (task', shared')) :
    task'.hasPermit = true := by
  unfold taskStep at moved
  split at moved
  · split at moved
    · cases moved
      rfl
    · cases moved
  · split at moved <;>
    · cases moved
      rfl
  · split at moved <;>
    · cases moved
      rfl
  · split at moved <;>
    · cases moved
      rfl
  · cases moved
    rfl
  · cases moved
    rfl
  · cases moved
    rfl
  · cases moved

theorem step_hasPermit {s t : State} {input : Input} {index : Nat} (has : HasPermit s index)
    (moved : step env s input = some t) : HasPermit t index := by
  obtain ⟨chunk, task, found, permit⟩ := has
  obtain ⟨-, -, cases_⟩ := step_cases moved
  rcases cases_ with ⟨chunk', waiting, -, -, -, rfl⟩ |
    ⟨other, event, chunk', task', task₁, shared, rfl, found', stepped, rfl⟩ |
    ⟨limiter, -, rfl⟩ | ⟨-, -, -, rfl⟩
  · refine ⟨chunk, task, ?_, permit⟩
    rw [List.getElem?_append_left (List.getElem?_eq_some_iff.mp found).1]
    exact found
  · by_cases same : other = index
    · subst same
      have inside := (List.getElem?_eq_some_iff.mp found).1
      exact ⟨chunk', task₁, List.getElem?_set_self inside, taskStep_advances stepped⟩
    · exact ⟨chunk, task, (List.getElem?_set_ne same).trans found, permit⟩
  · exact ⟨chunk, task, found, permit⟩
  · exact ⟨chunk, task, found, permit⟩

theorem acquired {s t : State} {index : Nat} (moved : step env s (acquireInput index) = some t) :
    HasPermit t index := by
  obtain ⟨-, -, cases_⟩ := step_cases moved
  rcases cases_ with ⟨chunk', waiting, impossible, -⟩ |
    ⟨other, event, chunk', task', task₁, shared, same, found, stepped, rfl⟩ |
    ⟨limiter, impossible, -⟩ | ⟨impossible, -⟩
  · cases impossible
  · obtain ⟨rfl, rfl⟩ := Input.task.inj same
    have inside := (List.getElem?_eq_some_iff.mp found).1
    exact ⟨chunk', task₁, List.getElem?_set_self inside, taskStep_advances stepped⟩
  · rcases impossible with same | same <;> cases same
  · cases impossible

theorem exec_hasPermit {s t : State} {inputs : List Input} {index : Nat}
    (run : Machine.exec (step env) s inputs = some t)
    (had : HasPermit s index ∨ acquireInput index ∈ inputs) : HasPermit t index := by
  induction inputs generalizing s with
  | nil =>
      cases run
      exact had.resolve_right List.not_mem_nil
  | cons input inputs ih =>
      obtain ⟨u, first, rest⟩ := (Machine.exec_cons _).mp run
      rcases had with before | member
      · exact ih rest (.inl (step_hasPermit before first))
      · rcases List.mem_cons.mp member with rfl | later
        · exact ih rest (.inl (acquired first))
        · exact ih rest (.inr later)

/-- Whoever was granted a permit has it: no grant is lost on the way to its task. -/
theorem granted_hasPermit {inputs : List QueuedInput} {s : QueuedState}
    (run : Machine.exec (queuedStep env) (queuedBegin env plan disk) inputs = some s) :
    ∀ index ∈ s.limiter.granted, HasPermit s.run index := by
  have keeps : ∀ (a : QueuedState) (input : QueuedInput) (b : QueuedState), True →
      (∀ index ∈ a.limiter.granted, HasPermit a.run index) → queuedStep env a input = some b →
      ∀ index ∈ b.limiter.granted, HasPermit b.run index := by
    intro a input b _ before moved index member
    rcases queued_cases moved with ⟨limited, limiter, run, -, -, stepped, through, rfl⟩ |
      ⟨other, chunk, -, -, -, rfl⟩ | ⟨plain, run, -, -, stepped, rfl⟩
    · obtain ⟨resumed, granted⟩ := limiter_step_granted stepped
      rw [granted, List.drop_left] at through
      rw [granted] at member
      refine exec_hasPermit through ?_
      rcases List.mem_append.mp member with old | new
      · exact .inl (before index old)
      · exact .inr (List.mem_append_right _ (List.mem_map_of_mem new))
    · exact before index member
    · exact step_hasPermit (before index member) stepped
  exact Machine.exec_invariant _ keeps (fun _ _ => trivial) run
    (fun _ member => absurd member List.not_mem_nil)

def QueuedInput.limited? : QueuedInput → Option (LimiterInput Nat)
  | .limiter input => some input
  | _ => none

/-- A run of the backfill is a run of its limiter. -/
theorem queued_limiter {inputs : List QueuedInput} {s t : QueuedState}
    (run : Machine.exec (queuedStep env) s inputs = some t) :
    Machine.exec (LimiterState.step env.maxPerSecond) s.limiter
      (inputs.filterMap QueuedInput.limited?) = some t.limiter := by
  induction inputs generalizing s with
  | nil =>
      cases run
      rfl
  | cons input inputs ih =>
      obtain ⟨u, first, rest⟩ := (Machine.exec_cons _).mp run
      have later := ih rest
      rcases queued_cases first with ⟨limited, limiter, run, rfl, -, stepped, -, rfl⟩ |
        ⟨index, chunk, rfl, -, -, rfl⟩ | ⟨plain, run, rfl, -, -, rfl⟩
      · exact (Machine.exec_cons _).mpr ⟨limiter, stepped, later⟩
      · exact later
      · exact later

theorem limited_refills (inputs : List QueuedInput) :
    (inputs.filterMap QueuedInput.limited?).countP LimiterInput.refills =
      inputs.countP QueuedInput.refills := by
  induction inputs with
  | nil => rfl
  | cons input inputs ih =>
      cases input with
      | limiter limited =>
          have first : QueuedInput.limited? (.limiter limited) = some limited := rfl
          rw [List.filterMap_cons_some first, List.countP_cons, List.countP_cons, ih]
          rfl
      | call | run =>
          rw [List.filterMap_cons_none rfl, List.countP_cons_of_neg (by simp [QueuedInput.refills])]
          exact ih

/-- A task in line goes on exactly when the refills since owe the line more permits than there are
tasks ahead of it, whatever else the run does meanwhile, and those ahead go on before it. All
refills but one that had already read hand out `max_per_second` permits. -/
theorem served_in_turn {inputs later : List QueuedInput} {s t : QueuedState}
    {ahead behind : List Nat} {index : Nat} (run : Machine.exec (queuedStep env) (queuedBegin env plan disk) inputs = some s)
    (line : s.limiter.semaphore.waiters = ahead ++ index :: behind)
    (goesOn : Machine.exec (queuedStep env) s later = some t) :
    let due := owed env.maxPerSecond s.limiter.reading (later.countP QueuedInput.refills)
    (HasPermit t.run index ↔ ahead.length < due) ∧
      (HasPermit t.run index → s.limiter.granted ++ (ahead ++ [index]) <+: t.limiter.granted) ∧
      (ahead.length < (later.countP QueuedInput.refills - 1) * env.maxPerSecond →
        HasPermit t.run index) := by
  intro due
  have whole := (Machine.exec_append _).mpr ⟨s, run, goesOn⟩
  obtain ⟨soon, late⟩ := line_runs line (queued_limiter goesOn)
  rw [limited_refills] at soon late
  have waits : due ≤ ahead.length → ¬HasPermit t.run index := by
    rintro short ⟨chunk, task, found, permit⟩
    obtain ⟨woken, rest, behind', -, -, line', -⟩ := late short
    have member : index ∈ t.limiter.semaphore.waiters := by
      rw [line']
      exact List.mem_append_right _ List.mem_cons_self
    obtain ⟨chunk', found'⟩ := (queued_inStep whole).acquiring index member
    obtain ⟨-, rfl⟩ := Prod.mk.inj (Option.some.inj (found.symm.trans found'))
    cases permit
  have served : ahead.length < due → HasPermit t.run index := by
    intro enough
    refine granted_hasPermit whole index ((soon enough).subset ?_)
    exact List.mem_append_right _ (List.mem_append_right _ (List.mem_singleton.mpr rfl))
  refine ⟨⟨fun has => ?_, served⟩, fun has => ?_, fun many => served ?_⟩
  · by_contra short
    exact waits (Nat.le_of_not_lt short) has
  · by_cases enough : ahead.length < due
    · exact soon enough
    · exact absurd has (waits (Nat.le_of_not_lt enough))
  · exact Nat.lt_of_lt_of_le many (le_owed env.maxPerSecond s.limiter.reading _)

end Tasks

section Example

/-- The second of two tasks, with one permit a second, after the first refill. -/
theorem served_in_turn_second : ∃ s t,
    Machine.exec (queuedStep onePerSecond)
      (queuedBegin onePerSecond [(10, 14), (15, 19)] Disk.empty)
      [.run .launch, .run .launch, .limiter (.acquire 0), .limiter (.acquire 1)] = some s ∧
    s.limiter.semaphore.waiters = [1] ∧
    Machine.exec (queuedStep onePerSecond) s [.limiter .readPermits, .limiter .addPermits] =
      some t ∧ HasPermit t.run 1 := by
  obtain ⟨s, run, waiters, reading, t, later⟩ : ∃ s,
      Machine.exec (queuedStep onePerSecond)
        (queuedBegin onePerSecond [(10, 14), (15, 19)] Disk.empty)
        [.run .launch, .run .launch, .limiter (.acquire 0), .limiter (.acquire 1)] = some s ∧
      s.limiter.semaphore.waiters = [1] ∧ s.limiter.reading = none ∧
      ∃ t, Machine.exec (queuedStep onePerSecond) s
        [.limiter .readPermits, .limiter .addPermits] = some t := ⟨_, rfl, rfl, rfl, _, rfl⟩
  have served := (@served_in_turn onePerSecond _ _ _ _ _ _ [] [] 1 run waiters later).1
  refine ⟨s, t, run, waiters, later, served.mpr ?_⟩
  rw [reading]
  decide

end Example

end PolymarketIndexer.Backfill
