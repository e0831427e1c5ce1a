import PolymarketIndexer.Library.Machine
import Mathlib.Data.List.Count

/-! # A budget that is topped up to a cap

Units are spent one at a time. A refill reads how many are left and later adds what was
missing from the cap when it read, so units may be spent in between. Neither what is
available nor what is spent from one reading to the next exceeds the cap.
-/

structure TopUp where
  available : Nat
  reading : Option Nat
  spent : Nat

namespace TopUp

inductive Event where
  | spend
  | read
  | add
  deriving DecidableEq, Repr

variable (cap : Nat)

def full : TopUp := { available := cap, reading := none, spent := 0 }

def step (budget : TopUp) : Event → Option TopUp
  | .spend =>
      if 0 < budget.available then
        some { budget with available := budget.available - 1, spent := budget.spent + 1 }
      else none
  | .read =>
      if budget.reading.isNone then some { budget with reading := some budget.available } else none
  | .add =>
      match budget.reading with
      | none => none
      | some left =>
          some { budget with available := budget.available + (cap - left), reading := none }

section Steps

variable {cap} {budget : TopUp}

theorem step_spend (some_ : 0 < budget.available) :
    step cap budget .spend =
      some { budget with available := budget.available - 1, spent := budget.spent + 1 } :=
  if_pos some_

theorem step_read (idle : budget.reading = none) :
    step cap budget .read = some { budget with reading := some budget.available } := by
  simp [step, idle]

theorem step_add {left : Nat} (pending : budget.reading = some left) :
    step cap budget .add =
      some { budget with available := budget.available + (cap - left), reading := none } := by
  simp [step, pending]

end Steps

/-- What is left does not exceed what a pending refill read, nor that the cap. -/
structure Capped (budget : TopUp) : Prop where
  available : budget.available ≤ cap
  reading : ∀ left, budget.reading = some left → budget.available ≤ left ∧ left ≤ cap

/-- What may still be spent until the next reading, with what was spent since `past`. -/
structure Within (past : Nat) (budget : TopUp) : Prop where
  idle : budget.reading = none → budget.spent + budget.available ≤ past + cap
  pending : ∀ left, budget.reading = some left →
    left ≤ cap ∧ budget.spent + budget.available ≤ past + left

section Step

variable {cap} {budget budget' : TopUp} {past : Nat}

theorem capped_full : Capped cap (full cap) where
  available := Nat.le_refl cap
  reading _ pending := by cases pending

theorem Capped.within (capped : Capped cap budget) : Within cap budget.spent budget where
  idle _ := Nat.add_le_add_left capped.available _
  pending left pending := by
    obtain ⟨spare, le⟩ := capped.reading left pending
    exact ⟨le, Nat.add_le_add_left spare _⟩

theorem step_capped {event : Event} (capped : Capped cap budget)
    (moved : step cap budget event = some budget') : Capped cap budget' := by
  have available := capped.available
  cases event with
  | spend =>
      simp only [step] at moved
      split at moved
      · obtain rfl := Option.some.inj moved
        refine ⟨by simp only; omega, fun left pending => ?_⟩
        have spare := capped.reading left pending
        simp only
        omega
      · cases moved
  | read =>
      simp only [step] at moved
      split at moved
      · obtain rfl := Option.some.inj moved
        refine ⟨available, fun left pending => ?_⟩
        obtain rfl := Option.some.inj pending
        exact ⟨Nat.le_refl _, available⟩
      · cases moved
  | add =>
      simp only [step] at moved
      split at moved
      · cases moved
      · rename_i left pending
        obtain rfl := Option.some.inj moved
        have spare := capped.reading left pending
        refine ⟨by simp only; omega, fun _ impossible => ?_⟩
        cases impossible

/-- Between two readings the budget is used up but not renewed. -/
theorem step_within {event : Event} (quiet : event ≠ .read) (within : Within cap past budget)
    (moved : step cap budget event = some budget') : Within cap past budget' := by
  cases event with
  | spend =>
      simp only [step] at moved
      split at moved
      · obtain rfl := Option.some.inj moved
        refine ⟨fun idle => ?_, fun left pending => ?_⟩
        · have room := within.idle idle
          simp only
          omega
        · have room := within.pending left pending
          simp only
          omega
      · cases moved
  | read => exact absurd rfl quiet
  | add =>
      simp only [step] at moved
      split at moved
      · cases moved
      · rename_i left pending
        obtain rfl := Option.some.inj moved
        have room := within.pending left pending
        refine ⟨fun _ => by simp only; omega, fun _ impossible => ?_⟩
        cases impossible

/-- Only a refill makes room for more than one cap. -/
theorem step_spent {event : Event} {refills : Nat}
    (bound : budget.spent + budget.available ≤ cap * (refills + 1))
    (moved : step cap budget event = some budget') :
    budget'.spent + budget'.available ≤ cap * (refills + [event].count .add + 1) := by
  cases event with
  | spend =>
      simp only [step] at moved
      split at moved
      · obtain rfl := Option.some.inj moved
        have none_ : [Event.spend].count .add = 0 := rfl
        simp only [none_, Nat.add_zero]
        omega
      · cases moved
  | read =>
      simp only [step] at moved
      split at moved
      · obtain rfl := Option.some.inj moved
        simpa using bound
      · cases moved
  | add =>
      simp only [step] at moved
      split at moved
      · cases moved
      · rename_i left pending
        obtain rfl := Option.some.inj moved
        have once : cap * (refills + 1 + 1) = cap * (refills + 1) + cap := Nat.mul_succ _ _
        simp only [List.count_singleton_self]
        omega

end Step

section Run

variable {cap} {budget budget' : TopUp} {events : List Event}

theorem run_capped (run : Machine.exec (step cap) budget events = some budget')
    (start : Capped cap budget) : Capped cap budget' := by
  have keeps : ∀ (a : TopUp) (event : Event) (b : TopUp), True → Capped cap a →
      step cap a event = some b → Capped cap b :=
    fun _ _ _ _ before moved => step_capped before moved
  exact Machine.exec_invariant _ keeps (fun _ _ => trivial) run start

/-- What is available can be spent unit by unit. -/
theorem exec_spend {n : Nat} (enough : n ≤ budget.available) :
    Machine.exec (step cap) budget (List.replicate n .spend) =
      some { budget with available := budget.available - n, spent := budget.spent + n } := by
  induction n generalizing budget with
  | zero => rfl
  | succ n ih =>
      have some_ : 0 < budget.available := by omega
      rw [List.replicate_succ, Machine.exec_cons]
      refine ⟨_, step_spend some_, ?_⟩
      rw [ih (by simp only; omega)]
      simp only [Option.some.injEq, mk.injEq, true_and]
      omega

/-- Without a reading no more than the cap is spent. -/
theorem run_within (run : Machine.exec (step cap) budget events = some budget')
    (quiet : .read ∉ events) (start : Capped cap budget) :
    budget'.spent ≤ budget.spent + cap := by
  have keeps : ∀ (a : TopUp) (event : Event) (b : TopUp), event ≠ .read →
      Within cap budget.spent a → step cap a event = some b → Within cap budget.spent b :=
    fun _ _ _ quiet before moved => step_within quiet before moved
  have within : Within cap budget.spent budget' := by
    apply Machine.exec_invariant _ keeps _ run start.within
    rintro event member rfl
    exact quiet member
  cases pending : budget'.reading with
  | none =>
      have room := within.idle pending
      omega
  | some left =>
      have room := within.pending left pending
      omega

/-- Each refill is good for at most one more cap. -/
theorem run_spent (run : Machine.exec (step cap) (full cap) events = some budget) :
    budget.spent + budget.available ≤ cap * (events.count .add + 1) := by
  have keeps : ∀ (past : List Event) (a : TopUp) (event : Event) (b : TopUp),
      a.spent + a.available ≤ cap * (past.count .add + 1) → step cap a event = some b →
      b.spent + b.available ≤ cap * ((past ++ [event]).count .add + 1) := by
    intro past a event b bound moved
    rw [List.count_append]
    exact step_spent bound moved
  have start : (full cap).spent + (full cap).available ≤
      cap * (([] : List Event).count .add + 1) := by
    simp [full]
  exact Machine.exec_history _ keeps run start

end Run

section Machines

variable {σ ι : Type*}

/-- Some events of a budget as what an input comes to: only a reading reads, only a refill
adds, and that once. -/
structure Shows (reads refills : ι → Bool) (input : ι) (events : List Event) : Prop where
  reads : .read ∈ events → reads input = true
  refills : events.count .add ≤ (refills input).toNat

/-- A machine spends no more than a budget that is topped up to `cap`: over a whole run and
between two readings. -/
structure Limited (step : σ → ι → Option σ) (start : σ) (cap : Nat) (available spent : σ → Nat)
    (reads refills : ι → Bool) : Prop where
  capped : ∀ {inputs s}, Machine.exec step start inputs = some s → available s ≤ cap
  between : ∀ {past s inputs t}, Machine.exec step start past = some s →
    Machine.exec step s inputs = some t → (∀ input ∈ inputs, reads input = false) →
    spent t ≤ spent s + cap
  total : ∀ {inputs s}, Machine.exec step start inputs = some s →
    spent s ≤ cap * (inputs.countP refills + 1)

variable {reads refills : ι → Bool} {inputs : List ι} {shown : List (List Event)}

theorem shows_quiet (shows : List.Forall₂ (Shows reads refills) inputs shown)
    (quiet : ∀ input ∈ inputs, reads input = false) : .read ∉ shown.flatten := by
  induction shows with
  | nil => exact List.not_mem_nil
  | @cons input events inputs shown first rest ih =>
      rw [List.flatten_cons, List.mem_append]
      rintro (here | later)
      · have loud := first.reads here
        rw [quiet input List.mem_cons_self] at loud
        cases loud
      · exact ih (fun other member => quiet other (List.mem_cons_of_mem _ member)) later

theorem shows_refills (shows : List.Forall₂ (Shows reads refills) inputs shown) :
    shown.flatten.count .add ≤ inputs.countP refills := by
  induction shows with
  | nil => exact Nat.le_refl _
  | @cons input events inputs shown first rest ih =>
      have one := first.refills
      rw [List.flatten_cons, List.count_append, List.countP_cons]
      cases adds : refills input with
      | false =>
          simp only [adds, Bool.toNat_false] at one
          simp only [Bool.false_eq_true, if_false]
          omega
      | true =>
          simp only [adds, Bool.toNat_true] at one
          simp only [if_true]
          omega

/-- A machine whose steps show as steps of a budget is limited like it. -/
theorem limited_of_shows {step : σ → ι → Option σ} {start : σ} {cap : Nat} (view : σ → TopUp)
    (begins : view start = full cap)
    (simulates : ∀ s input t, step s input = some t → ∃ events,
      Shows reads refills input events ∧ Machine.exec (TopUp.step cap) (view s) events =
        some (view t)) :
    Limited step start cap (fun s => (view s).available) (fun s => (view s).spent)
      reads refills where
  capped run := by
    obtain ⟨shown, -, moves⟩ := Machine.exec_refines step view simulates run
    exact (run_capped moves (begins ▸ capped_full)).available
  between before run quiet := by
    obtain ⟨past, -, reached⟩ := Machine.exec_refines step view simulates before
    obtain ⟨shown, shows, moves⟩ := Machine.exec_refines step view simulates run
    exact run_within moves (shows_quiet shows quiet) (run_capped reached (begins ▸ capped_full))
  total run := by
    obtain ⟨shown, shows, moves⟩ := Machine.exec_refines step view simulates run
    rw [begins] at moves
    have bound := run_spent moves
    have few := Nat.mul_le_mul_left cap (Nat.add_le_add_right (shows_refills shows) 1)
    exact Nat.le_trans (Nat.le_trans (Nat.le_add_right _ _) bound) few

end Machines

end TopUp
