import PolymarketIndexer.Backfill.Confluence
import PolymarketIndexer.Backfill.Limiter

/-! # A run whose tasks stand in line

The run and the limiter side by side: a task without a permit calls `acquire` once, gets its
permit at once or from a refill, and issues its `get_logs` call when it is polled after that.
What the tasks do stays a run of the machine without a line.
-/

namespace PolymarketIndexer.Backfill

structure QueuedState where
  run : State
  limiter : LimiterState Nat
  called : List Nat

inductive QueuedInput where
  | limiter (input : LimiterInput Nat)
  | call (index : Nat)
  | run (input : Input)

namespace QueuedInput

def reads : QueuedInput → Bool
  | .limiter input => input.reads
  | _ => false

def refills : QueuedInput → Bool
  | .limiter input => input.refills
  | _ => false

end QueuedInput

/-- What the refill does to the run besides waking tasks. -/
def refillInputs : LimiterInput Nat → List Input
  | .acquire _ => []
  | .readPermits => [.readPermits]
  | .addPermits => [.addPermits]

def acquireInput (index : Nat) : Input := .task index .acquire

def Input.usesLimiter : Input → Bool
  | .task _ .acquire => true
  | .readPermits => true
  | .addPermits => true
  | _ => false

/-- An answer can only be fetched by a task that issued its call. -/
def Input.awaits : Input → Option Nat
  | .task index (.fetched _) => some index
  | _ => none

section Machine

variable (env : Env)

def queuedBegin (plan : List Chunk) (disk : Disk) : QueuedState where
  run := begin_ env plan disk
  limiter := LimiterState.new env.maxPerSecond
  called := []

/-- A task calls `acquire` once. -/
def mayAcquire (s : QueuedState) (index : Nat) : Bool :=
  match s.run.tasks[index]? with
  | some (_, .acquiring) => !s.limiter.semaphore.waiters.contains index
  | _ => false

def mayUse (s : QueuedState) (input : LimiterInput Nat) : Bool :=
  s.run.returned.isNone && input.caller?.all (mayAcquire s)

def queuedStep (s : QueuedState) : QueuedInput → Option QueuedState
  | .limiter input =>
      if mayUse s input then do
        let limiter ← LimiterState.step env.maxPerSecond s.limiter input
        let resumed := limiter.granted.drop s.limiter.granted.length
        let run ← Machine.exec (step env) s.run (refillInputs input ++ resumed.map acquireInput)
        return { s with run := run, limiter := limiter }
      else none
  | .call index =>
      match s.run.tasks[index]? with
      | some (_, .fetching) =>
          if index ∈ s.called then none else some { s with called := s.called ++ [index] }
      | _ => none
  | .run input =>
      if !input.usesLimiter && input.awaits.all (s.called.contains ·) then
        (step env s.run input).map (fun run => { s with run := run })
      else none

end Machine

variable {env : Env} {plan : List Chunk} {disk : Disk}

/-- Everything a step of the queued run can be. -/
theorem queued_cases {s t : QueuedState} {input : QueuedInput}
    (moved : queuedStep env s input = some t) :
    (∃ limited limiter run, input = .limiter limited ∧ mayUse s limited = true ∧
        LimiterState.step env.maxPerSecond s.limiter limited = some limiter ∧
        Machine.exec (step env) s.run (refillInputs limited ++
          (limiter.granted.drop s.limiter.granted.length).map acquireInput) = some run ∧
        t = { s with run := run, limiter := limiter }) ∨
      (∃ index chunk, input = .call index ∧ s.run.tasks[index]? = some (chunk, .fetching) ∧
        index ∉ s.called ∧ t = { s with called := s.called ++ [index] }) ∨
      (∃ plain run, input = .run plain ∧ plain.usesLimiter = false ∧
        step env s.run plain = some run ∧ t = { s with run := run }) := by
  cases input with
  | limiter limited =>
      simp only [queuedStep] at moved
      split at moved
      · rename_i allowed
        obtain ⟨limiter, stepped, rest⟩ := Option.bind_eq_some_iff.mp moved
        obtain ⟨run, resumed, same⟩ := Option.bind_eq_some_iff.mp rest
        obtain rfl := Option.some.inj same
        exact .inl ⟨limited, limiter, run, rfl, allowed, stepped, resumed, rfl⟩
      · cases moved
  | call index =>
      simp only [queuedStep] at moved
      split at moved
      · rename_i chunk found
        split at moved
        · cases moved
        · rename_i fresh
          exact .inr (.inl ⟨index, chunk, rfl, found, fresh, (Option.some.inj moved).symm⟩)
      · cases moved
  | run plain =>
      simp only [queuedStep] at moved
      split at moved
      · rename_i allowed
        obtain ⟨run, stepped, rfl⟩ := Option.map_eq_some_iff.mp moved
        simp only [Bool.and_eq_true, Bool.not_eq_true'] at allowed
        exact .inr (.inr ⟨plain, run, rfl, allowed.1, stepped, rfl⟩)
      · cases moved

/-- Standing in line changes when a task moves on, not what it does. -/
theorem queued_run {inputs : List QueuedInput} {s : QueuedState}
    (run : Machine.exec (queuedStep env) (queuedBegin env plan disk) inputs = some s) :
    ∃ schedule, Machine.exec (step env) (begin_ env plan disk) schedule = some s.run := by
  have simulates : ∀ (s : QueuedState) (input : QueuedInput) (t : QueuedState),
      queuedStep env s input = some t →
      ∃ schedule, True ∧ Machine.exec (step env) s.run schedule = some t.run := by
    intro s input t moved
    rcases queued_cases moved with ⟨limited, limiter, run, -, -, -, resumed, rfl⟩ |
      ⟨index, chunk, -, -, -, rfl⟩ | ⟨plain, run, -, -, stepped, rfl⟩
    · exact ⟨_, trivial, resumed⟩
    · exact ⟨[], trivial, rfl⟩
    · exact ⟨[plain], trivial, (Machine.exec_cons _).mpr ⟨run, stepped, rfl⟩⟩
  obtain ⟨schedules, -, moves⟩ :=
    @Machine.exec_refines _ _ _ _ _ _ QueuedState.run (fun _ _ => True) simulates _ _ _ run
  exact ⟨schedules.flatten, moves⟩

theorem queued_limited (plan : List Chunk) (disk : Disk) :
    TopUp.Limited (queuedStep env) (queuedBegin env plan disk) env.maxPerSecond
      (fun s => s.limiter.semaphore.permits) (fun s => s.limiter.granted.length)
      QueuedInput.reads QueuedInput.refills := by
  refine TopUp.limited_of_shows (fun s : QueuedState => s.limiter.budget) rfl ?_
  intro s input t moved
  rcases queued_cases moved with ⟨limited, limiter, run, rfl, -, stepped, -, rfl⟩ |
    ⟨index, chunk, rfl, -, -, rfl⟩ | ⟨plain, run, rfl, -, -, rfl⟩
  · obtain ⟨events, shows, moves⟩ := limiter_step_shows stepped
    exact ⟨events, ⟨shows.reads, shows.refills⟩, moves⟩
  · exact ⟨[], ⟨by simp, by simp⟩, rfl⟩
  · exact ⟨[], ⟨by simp, by simp⟩, rfl⟩

def Task.hasPermit : Task → Bool
  | .acquiring => false
  | _ => true

/-- Only tasks among `granted` are past their `acquire`. -/
def Permitted (granted : List Nat) (s : State) : Prop :=
  ∀ index chunk task, s.tasks[index]? = some (chunk, task) → task.hasPermit = true →
    index ∈ granted

/-- A task gets past its `acquire` by that step only, and only that step takes a permit. -/
theorem taskStep_permit {chunk : Chunk} {task task' : Task} {shared shared' : Shared}
    {event : Event} (moved : taskStep env chunk task shared event = some (task', shared')) :
    event = .acquire ∨ (task.hasPermit = true ∧ shared'.limiter = shared.limiter) := by
  rcases taskStep_shared moved with ⟨-, acquires, -⟩ | ⟨past, limiter, -⟩
  · exact .inl acquires
  · refine .inr ⟨?_, limiter⟩
    cases task with
    | acquiring => exact absurd rfl past
    | _ => rfl

theorem step_permitted {granted : List Nat} {s t : State} {input : Input}
    (allowed : ∀ index, input = acquireInput index → index ∈ granted)
    (before : Permitted granted s) (moved : step env s input = some t) : Permitted granted t := by
  obtain ⟨-, -, cases_⟩ := step_cases moved
  rcases cases_ with ⟨chunk, waiting, -, -, -, rfl⟩ |
    ⟨index, event, chunk, task, task', shared, rfl, found, stepped, rfl⟩ |
    ⟨limiter, -, rfl⟩ | ⟨-, -, -, rfl⟩
  · intro other chunk' task' here permit
    rw [List.getElem?_append] at here
    split at here
    · exact before other chunk' task' here permit
    · obtain ⟨-, rfl⟩ := Prod.mk.inj (List.mem_singleton.mp (List.mem_of_getElem? here))
      cases permit
  · intro other chunk' task₁ here permit
    rw [List.getElem?_set] at here
    split at here
    · rename_i same
      obtain rfl := same
      rcases taskStep_permit stepped with rfl | ⟨past, -⟩
      · exact allowed index rfl
      · exact before index chunk task found past
    · exact before other chunk' task₁ here permit
  · exact before
  · exact before

theorem limiter_step_granted {maxPerSecond : Nat} {limiter limiter' : LimiterState Nat}
    {input : LimiterInput Nat}
    (moved : LimiterState.step maxPerSecond limiter input = some limiter') :
    ∃ resumed, limiter'.granted = limiter.granted ++ resumed := by
  cases limiter_moves moved with
  | granted _ _ _ _ granted => exact ⟨_, granted⟩
  | queued _ _ _ granted => exact ⟨[], granted.trans (List.append_nil _).symm⟩
  | read _ _ _ granted => exact ⟨[], granted.trans (List.append_nil _).symm⟩
  | added _ _ _ _ granted => exact ⟨_, granted⟩

/-- Only a task with a permit has called `get_logs`, and once. -/
structure Issued (s : QueuedState) : Prop where
  permitted : Permitted s.limiter.granted s.run
  granted : s.called ⊆ s.limiter.granted
  once : s.called.Nodup

theorem queued_step_issued {s t : QueuedState} {input : QueuedInput} (issued : Issued s)
    (moved : queuedStep env s input = some t) : Issued t := by
  rcases queued_cases moved with ⟨limited, limiter, run, rfl, -, stepped, through, rfl⟩ |
    ⟨index, chunk, rfl, found, fresh, rfl⟩ | ⟨plain, run, rfl, plain_, stepped, rfl⟩
  · obtain ⟨resumed, granted⟩ := limiter_step_granted stepped
    have more : s.limiter.granted ⊆ limiter.granted := granted ▸ List.subset_append_left _ _
    rw [granted, List.drop_left] at through
    refine ⟨?_, List.Subset.trans issued.granted more, issued.once⟩
    have start : Permitted limiter.granted s.run := fun index chunk task found permit =>
      more (issued.permitted index chunk task found permit)
    have keeps : ∀ (a : State) (input : Input) (b : State),
        (∀ index, input = acquireInput index → index ∈ limiter.granted) →
        Permitted limiter.granted a → step env a input = some b → Permitted limiter.granted b :=
      fun _ _ _ allowed before moved => step_permitted allowed before moved
    refine Machine.exec_invariant _ keeps ?_ through start
    intro input member index same
    obtain rfl := same
    rcases List.mem_append.mp member with refill | woken
    · cases limited <;> simp [refillInputs, acquireInput] at refill
    · obtain ⟨index', member', same⟩ := List.mem_map.mp woken
      obtain ⟨rfl, -⟩ := Input.task.inj same
      exact granted ▸ List.mem_append_right _ member'
  · refine ⟨issued.permitted, ?_, ?_⟩
    · intro index' member
      rcases List.mem_append.mp member with old | new
      · exact issued.granted old
      · obtain rfl := List.mem_singleton.mp new
        exact issued.permitted index' chunk .fetching found rfl
    · exact List.nodup_append.mpr ⟨issued.once, List.nodup_singleton _, by
        intro old member new isNew same
        obtain rfl := List.mem_singleton.mp isNew
        exact fresh (same ▸ member)⟩
  · refine ⟨?_, issued.granted, issued.once⟩
    refine step_permitted ?_ issued.permitted stepped
    rintro index rfl
    cases plain_

theorem queued_issued {inputs : List QueuedInput} {s : QueuedState}
    (run : Machine.exec (queuedStep env) (queuedBegin env plan disk) inputs = some s) :
    Issued s := by
  have keeps : ∀ (a : QueuedState) (input : QueuedInput) (b : QueuedState), True → Issued a →
      queuedStep env a input = some b → Issued b :=
    fun _ _ _ _ before moved => queued_step_issued before moved
  refine Machine.exec_invariant _ keeps (fun _ _ => trivial) run ⟨?_, ?_, List.nodup_nil⟩
  · intro index chunk task found
    cases found
  · exact List.nil_subset _

theorem called_le {inputs : List QueuedInput} {s : QueuedState}
    (run : Machine.exec (queuedStep env) (queuedBegin env plan disk) inputs = some s) :
    s.called.length ≤ s.limiter.granted.length :=
  (List.subperm_of_subset (queued_issued run).once (queued_issued run).granted).length_le

/-- The run's limiter is the one with the line, and those in line still acquire. -/
structure InStep (s : QueuedState) : Prop where
  limiter : s.run.shared.limiter =
    { available := s.limiter.semaphore.permits, reading := s.limiter.reading }
  once : s.limiter.semaphore.waiters.Nodup
  acquiring : ∀ index ∈ s.limiter.semaphore.waiters, ∃ chunk,
    s.run.tasks[index]? = some (chunk, .acquiring)

/-- Tasks that wait for a permit take theirs one after the other. -/
theorem exec_acquires {indices : List Nat} {s : State} (running : s.returned = none)
    (sound : s.shared.panicked = false) (once : indices.Nodup)
    (acquiring : ∀ index ∈ indices, ∃ chunk, s.tasks[index]? = some (chunk, .acquiring))
    (enough : indices.length ≤ s.shared.limiter.available) :
    ∃ t, Machine.exec (step env) s (indices.map acquireInput) = some t ∧
      t.shared.limiter = { s.shared.limiter with
        available := s.shared.limiter.available - indices.length } ∧
      ∀ other, other ∉ indices → t.tasks[other]? = s.tasks[other]? := by
  induction indices generalizing s with
  | nil => exact ⟨s, rfl, rfl, fun _ _ => rfl⟩
  | cons index indices ih =>
      obtain ⟨chunk, found⟩ := acquiring index List.mem_cons_self
      obtain ⟨fresh, once⟩ := List.nodup_cons.mp once
      rw [List.length_cons] at enough
      have some_ : 0 < s.shared.limiter.available := by omega
      let s' : State := { s with
        tasks := s.tasks.set index (chunk, .fetching)
        shared.limiter.available := s.shared.limiter.available - 1 }
      have first : step env s (acquireInput index) = some s' := by
        have live : (s.returned.isSome || s.shared.panicked) = false := by simp [running, sound]
        simp only [step, acquireInput, live, found, taskStep, some_, if_true, Bool.false_eq_true,
          if_false, Option.map_some, s']
      have untouched : ∀ other, other ≠ index → s'.tasks[other]? = s.tasks[other]? :=
        fun other different => List.getElem?_set_ne (Ne.symm different)
      obtain ⟨t, rest, limiter, others⟩ := @ih s' running sound once
        (fun other member => by
          rw [untouched other (fun same => fresh (same ▸ member))]
          exact acquiring other (List.mem_cons_of_mem _ member))
        (by simp only [s']; omega)
      refine ⟨t, (Machine.exec_cons _).mpr ⟨s', first, rest⟩, ?_, ?_⟩
      · rw [limiter]
        simp only [s', List.length_cons, RateLimiter.mk.injEq, and_true]
        omega
      · intro other apart
        rw [List.mem_cons, not_or] at apart
        rw [others other apart.2, untouched other apart.1]

theorem step_readPermits {s : State} (running : s.returned = none)
    (sound : s.shared.panicked = false) (idle : s.shared.limiter.reading = none) :
    step env s .readPermits =
      some { s with shared.limiter.reading := some s.shared.limiter.available } := by
  have live : (s.returned.isSome || s.shared.panicked) = false := by simp [running, sound]
  simp only [step, live, idle, Bool.false_eq_true, if_false, Option.isNone_none, if_true]

theorem step_addPermits {s : State} {available : Nat} (running : s.returned = none)
    (sound : s.shared.panicked = false) (pending : s.shared.limiter.reading = some available) :
    step env s .addPermits = some { s with shared.limiter :=
      { available := s.shared.limiter.available + (env.maxPerSecond - available),
        reading := none } } := by
  have live : (s.returned.isSome || s.shared.panicked) = false := by simp [running, sound]
  have missing : (if available < env.maxPerSecond then env.maxPerSecond - available else 0) =
      env.maxPerSecond - available := by
    split <;> omega
  simp only [step, live, pending, missing, Bool.false_eq_true, if_false]

/-- What the limiter grants the run takes up, and the two stay in step. -/
theorem limiter_through {s : QueuedState} {limited : LimiterInput Nat} {limiter : LimiterState Nat}
    (inStep : InStep s) (sound : s.run.shared.panicked = false)
    (allowed : mayUse s limited = true)
    (stepped : LimiterState.step env.maxPerSecond s.limiter limited = some limiter) :
    ∃ run, Machine.exec (step env) s.run (refillInputs limited ++
        (limiter.granted.drop s.limiter.granted.length).map acquireInput) = some run ∧
      InStep { s with run := run, limiter := limiter } := by
  rw [mayUse, Bool.and_eq_true, Option.isNone_iff_eq_none] at allowed
  obtain ⟨running, allowed⟩ := allowed
  have calls : ∀ who, limited = .acquire who →
      (∃ chunk, s.run.tasks[who]? = some (chunk, .acquiring)) ∧
        who ∉ s.limiter.semaphore.waiters := by
    rintro who rfl
    simp only [LimiterInput.caller?, Option.all_some, mayAcquire] at allowed
    split at allowed
    · rename_i chunk found
      exact ⟨⟨chunk, found⟩, by simpa using allowed⟩
    · cases allowed
  cases limiter_moves stepped with
  | @granted who found permits waiters reading granted =>
      obtain ⟨acquiring, fresh⟩ := calls who rfl
      have idle := s.limiter.semaphore.served found
      have enough : [who].length ≤ s.run.shared.limiter.available := by
        rw [inStep.limiter]
        exact found
      obtain ⟨run, through, taken, -⟩ := @exec_acquires env _ _ running sound
        (List.nodup_singleton who) (fun index member => List.mem_singleton.mp member ▸ acquiring)
        enough
      refine ⟨run, by rw [granted, List.drop_left]; exact through, ?_, ?_, ?_⟩
      · rw [taken, inStep.limiter, reading, ← permits]
        rfl
      · rw [waiters]
        exact inStep.once
      · rw [waiters, idle]
        intro index member
        cases member
  | @queued who permits waiters reading granted =>
      obtain ⟨acquiring, fresh⟩ := calls who rfl
      refine ⟨s.run, by rw [granted, List.drop_length]; rfl, ?_, ?_, ?_⟩
      · rw [permits, reading]
        exact inStep.limiter
      · rw [waiters]
        refine List.nodup_append.mpr ⟨inStep.once, List.nodup_singleton _, ?_⟩
        intro index member other isWho same
        exact fresh (List.mem_singleton.mp isWho ▸ same ▸ member)
      · rw [waiters]
        intro index member
        rcases List.mem_append.mp member with old | new
        · exact inStep.acquiring index old
        · exact List.mem_singleton.mp new ▸ acquiring
  | read idle semaphore reading granted =>
      have idle : s.run.shared.limiter.reading = none := by
        rw [inStep.limiter]
        exact idle
      refine ⟨{ s.run with shared.limiter.reading := some s.run.shared.limiter.available }, ?_, ?_,
        ?_, ?_⟩
      · rw [granted, List.drop_length]
        exact (Machine.exec_cons _).mpr ⟨_, step_readPermits running sound idle, rfl⟩
      · simp only [inStep.limiter, semaphore, reading]
      · rw [semaphore]
        exact inStep.once
      · rw [semaphore]
        exact inStep.acquiring
  | @added available woken pending permits waiters reading granted =>
      have pending : s.run.shared.limiter.reading = some available := by
        rw [inStep.limiter]
        exact pending
      have once := inStep.once
      rw [← waiters] at once
      have line : ∀ index ∈ woken ++ limiter.semaphore.waiters, ∃ chunk,
          s.run.tasks[index]? = some (chunk, .acquiring) := by
        rw [waiters]
        exact inStep.acquiring
      obtain ⟨run, through, taken, others⟩ := @exec_acquires env woken
        { s.run with shared.limiter :=
          { available := s.run.shared.limiter.available + (env.maxPerSecond - available),
            reading := none } } running sound (List.nodup_append.mp once).1
        (fun index member => line index (List.mem_append_left _ member))
        (by rw [inStep.limiter]; simp only; omega)
      refine ⟨run, ?_, ?_, (List.nodup_append.mp once).2.1, ?_⟩
      · rw [granted, List.drop_left]
        exact (Machine.exec_cons _).mpr ⟨_, step_addPermits running sound pending, through⟩
      · rw [taken, inStep.limiter, reading, RateLimiter.mk.injEq]
        simp only [and_true]
        omega
      · intro index member
        rw [others index (fun taken => (List.nodup_append.mp once).2.2 index taken index member rfl)]
        exact line index (List.mem_append_right _ member)

/-- A plain step leaves the limiter and those in line alone. -/
theorem plain_inStep {s : QueuedState} {plain : Input} {run : State} (inStep : InStep s)
    (plain_ : plain.usesLimiter = false) (moved : step env s.run plain = some run) :
    InStep { s with run := run } := by
  obtain ⟨-, -, cases_⟩ := step_cases moved
  rcases cases_ with ⟨chunk, waiting, -, -, -, rfl⟩ |
    ⟨index, event, chunk, task, task', shared, rfl, found, stepped, rfl⟩ |
    ⟨limiter, uses, rfl⟩ | ⟨-, -, -, rfl⟩
  · refine ⟨inStep.limiter, inStep.once, fun waiter member => ?_⟩
    obtain ⟨chunk', found⟩ := inStep.acquiring waiter member
    refine ⟨chunk', ?_⟩
    rw [List.getElem?_append_left (List.getElem?_eq_some_iff.mp found).1]
    exact found
  · rcases taskStep_permit stepped with rfl | ⟨past, limiter⟩
    · cases plain_
    · refine ⟨limiter.trans inStep.limiter, inStep.once, fun waiter member => ?_⟩
      obtain ⟨chunk', found'⟩ := inStep.acquiring waiter member
      have apart : index ≠ waiter := by
        rintro rfl
        obtain ⟨-, rfl⟩ := Prod.mk.inj (Option.some.inj (found.symm.trans found'))
        cases past
      exact ⟨chunk', (List.getElem?_set_ne apart).trans found'⟩
  · rcases uses with rfl | rfl <;> cases plain_
  · exact ⟨inStep.limiter, inStep.once, inStep.acquiring⟩

theorem queued_sound {inputs : List QueuedInput} {s : QueuedState}
    (run : Machine.exec (queuedStep env) (queuedBegin env plan disk) inputs = some s) :
    s.run.shared.panicked = false := by
  obtain ⟨schedule, through⟩ := queued_run run
  exact (run_balanced through).panicked

theorem queued_inStep {inputs : List QueuedInput} {s : QueuedState}
    (run : Machine.exec (queuedStep env) (queuedBegin env plan disk) inputs = some s) :
    InStep s := by
  have keeps : ∀ (past : List QueuedInput) (a : QueuedState) (input : QueuedInput)
      (b : QueuedState), (Machine.exec (queuedStep env) (queuedBegin env plan disk) past = some a ∧
        InStep a) → queuedStep env a input = some b →
      Machine.exec (queuedStep env) (queuedBegin env plan disk) (past ++ [input]) = some b ∧
        InStep b := by
    rintro past a input b ⟨reached, inStep⟩ moved
    refine ⟨(Machine.exec_snoc _).mpr ⟨a, reached, moved⟩, ?_⟩
    rcases queued_cases moved with ⟨limited, limiter, run, -, allowed, stepped, through, rfl⟩ |
      ⟨index, chunk, -, -, -, rfl⟩ | ⟨plain, run, -, plain_, stepped, rfl⟩
    · obtain ⟨run', through', inStep'⟩ :=
        limiter_through inStep (queued_sound reached) allowed stepped
      obtain rfl := Option.some.inj (through.symm.trans through')
      exact inStep'
    · exact ⟨inStep.limiter, inStep.once, inStep.acquiring⟩
    · exact plain_inStep inStep plain_ stepped
  exact (Machine.exec_history _ keeps run
    ⟨rfl, rfl, List.nodup_nil, fun _ member => by cases member⟩).2

/-- A call and a refill always go through: those who are handed a permit can take it. -/
theorem limiter_proceeds {inputs : List QueuedInput} {s : QueuedState}
    {limited : LimiterInput Nat} {limiter : LimiterState Nat}
    (run : Machine.exec (queuedStep env) (queuedBegin env plan disk) inputs = some s)
    (allowed : mayUse s limited = true)
    (stepped : LimiterState.step env.maxPerSecond s.limiter limited = some limiter) :
    ∃ t, queuedStep env s (.limiter limited) = some t ∧ t.limiter = limiter := by
  obtain ⟨run', through, -⟩ :=
    limiter_through (queued_inStep run) (queued_sound run) allowed stepped
  refine ⟨{ s with run := run', limiter := limiter }, ?_, rfl⟩
  rw [queuedStep, if_pos allowed]
  simp only [stepped, Option.bind_eq_bind, Option.bind_some, through]
  rfl

/-- However the calls race with the refill, no more permits are there than `max_per_second`,
no more are granted from one reading to the next, and each refill allows that many more
calls, of `acquire` by anyone and of `get_logs` by the backfill. -/
theorem rate_limiter_cap (env : Env) (plan : List Chunk) (disk : Disk) :
    (∀ ι : Type, TopUp.Limited (LimiterState.step env.maxPerSecond)
      (LimiterState.new env.maxPerSecond : LimiterState ι) env.maxPerSecond
      (fun limiter => limiter.semaphore.permits) (fun limiter => limiter.granted.length)
      LimiterInput.reads LimiterInput.refills) ∧
    TopUp.Limited (queuedStep env) (queuedBegin env plan disk) env.maxPerSecond
      (fun s => s.limiter.semaphore.permits) (fun s => s.limiter.granted.length)
      QueuedInput.reads QueuedInput.refills ∧
    ∀ inputs s, Machine.exec (queuedStep env) (queuedBegin env plan disk) inputs = some s →
      s.called.length ≤ env.maxPerSecond * (inputs.countP QueuedInput.refills + 1) ∧
      ∀ later t, Machine.exec (queuedStep env) s later = some t →
        (∀ input ∈ later, input.reads = false) →
        t.called.length ≤ s.limiter.granted.length + env.maxPerSecond := by
  have limited := @queued_limited env plan disk
  refine ⟨fun ι => limiter_limited env.maxPerSecond, limited, ?_⟩
  intro inputs s run
  refine ⟨(called_le run).trans (limited.total run), ?_⟩
  intro later t run' quiet
  have whole : Machine.exec (queuedStep env) (queuedBegin env plan disk) (inputs ++ later) =
      some t := (Machine.exec_append _).mpr ⟨s, run, run'⟩
  exact (called_le whole).trans (limited.between run run' quiet)

section Example

/-- Two chunks at once, one request a second. -/
def onePerSecond : Env := { halfFailing.env twoChunks watched with maxPerSecond := 1 }

/-- The second task waits for the refill. -/
theorem rate_limiter_cap_reached : ∃ s,
    Machine.exec (queuedStep onePerSecond)
      (queuedBegin onePerSecond [(10, 14), (15, 19)] Disk.empty)
      [.run .launch, .run .launch, .limiter (.acquire 0), .limiter (.acquire 1), .call 0,
        .limiter .readPermits, .limiter .addPermits, .call 1] = some s ∧
    s.called = [0, 1] ∧ s.called.length ≤ 1 * (1 + 1) := by
  obtain ⟨s, run, called⟩ : ∃ s,
      Machine.exec (queuedStep onePerSecond)
        (queuedBegin onePerSecond [(10, 14), (15, 19)] Disk.empty)
        [.run .launch, .run .launch, .limiter (.acquire 0), .limiter (.acquire 1), .call 0,
          .limiter .readPermits, .limiter .addPermits, .call 1] = some s ∧
      s.called = [0, 1] := ⟨_, rfl, rfl⟩
  exact ⟨s, run, called, ((rate_limiter_cap onePerSecond _ _).2.2 _ s run).1⟩

end Example

end PolymarketIndexer.Backfill
