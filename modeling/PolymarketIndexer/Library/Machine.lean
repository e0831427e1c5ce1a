import Mathlib.Data.List.Basic
import Mathlib.Data.List.Induction

/-! # Runs of a deterministic labelled machine

A machine is a partial step function: in a state it may accept an input and move
on. Inputs are what the outside world decides, so quantifying over input lists is
quantifying over every interleaving of outside events. The rules below turn a
fact about one step into a fact about every run.
-/

namespace Machine

variable {σ ι : Type*} (step : σ → ι → Option σ)

def exec (s : σ) : List ι → Option σ
  | [] => some s
  | i :: is => (step s i).bind (fun t => exec t is)

@[simp] theorem exec_nil (s : σ) : exec step s [] = some s := rfl

theorem exec_cons {s t : σ} {i : ι} {is : List ι} :
    exec step s (i :: is) = some t ↔ ∃ u, step s i = some u ∧ exec step u is = some t := by
  simp only [exec, Option.bind_eq_some_iff]

theorem exec_append {s t : σ} {is js : List ι} :
    exec step s (is ++ js) = some t ↔ ∃ u, exec step s is = some u ∧ exec step u js = some t := by
  induction is generalizing s with
  | nil => simp
  | cons i is ih =>
      rw [List.cons_append, exec_cons]
      constructor
      · rintro ⟨u, hstep, hrest⟩
        obtain ⟨v, hv, hjs⟩ := ih.mp hrest
        exact ⟨v, (exec_cons step).mpr ⟨u, hstep, hv⟩, hjs⟩
      · rintro ⟨v, hv, hjs⟩
        obtain ⟨u, hstep, hrest⟩ := (exec_cons step).mp hv
        exact ⟨u, hstep, ih.mpr ⟨v, hrest, hjs⟩⟩

theorem exec_snoc {s t : σ} {is : List ι} {i : ι} :
    exec step s (is ++ [i]) = some t ↔ ∃ u, exec step s is = some u ∧ step u i = some t := by
  rw [exec_append]
  simp only [exec_cons, exec_nil, Option.some.injEq, exists_eq_right]

/-- What every accepted input keeps holds at the end of a run. The inputs may be
restricted to those that satisfy `allowed`. -/
theorem exec_invariant {P : σ → Prop} {allowed : ι → Prop}
    (keeps : ∀ s i t, allowed i → P s → step s i = some t → P t)
    {s t : σ} {is : List ι} (inputs : ∀ i ∈ is, allowed i)
    (run : exec step s is = some t) (start : P s) : P t := by
  induction is generalizing s with
  | nil => cases run; exact start
  | cons i is ih =>
      obtain ⟨u, hstep, hrest⟩ := (exec_cons step).mp run
      have next : P u := keeps s i u (inputs i List.mem_cons_self) start hstep
      exact ih (fun j member => inputs j (List.mem_cons_of_mem _ member)) hrest next

theorem exec_history {P : List ι → σ → Prop}
    (keeps : ∀ past s i t, P past s → step s i = some t → P (past ++ [i]) t)
    {s t : σ} {is : List ι} (run : exec step s is = some t) (start : P [] s) : P is t := by
  suffices general : ∀ past u, P past u → exec step u is = some t → P (past ++ is) t by
    simpa using general [] s start run
  clear run start
  induction is with
  | nil =>
      intro past u hu run
      cases run
      simpa using hu
  | cons i is ih =>
      intro past u hu run
      obtain ⟨v, hstep, hrest⟩ := (exec_cons step).mp run
      simpa using ih (past ++ [i]) v (keeps past u i v hu hstep) hrest

/-- When each step shows as some steps of another machine, so does a run. -/
theorem exec_refines {σ' ι' : Type*} {step' : σ' → ι' → Option σ'} (view : σ → σ')
    {shows : ι → List ι' → Prop}
    (simulates : ∀ s i t, step s i = some t →
      ∃ js, shows i js ∧ exec step' (view s) js = some (view t))
    {s t : σ} {is : List ι} (run : exec step s is = some t) :
    ∃ jss, List.Forall₂ shows is jss ∧ exec step' (view s) jss.flatten = some (view t) := by
  induction is generalizing s with
  | nil =>
      cases run
      exact ⟨[], .nil, rfl⟩
  | cons i is ih =>
      obtain ⟨u, first, rest⟩ := (exec_cons step).mp run
      obtain ⟨js, shown, moves⟩ := simulates s i u first
      obtain ⟨jss, shown', moves'⟩ := ih rest
      exact ⟨js :: jss, .cons shown shown', (exec_append step').mpr ⟨_, moves, moves'⟩⟩

/-- What the steps of a run let out, in order. -/
def outputs {ο : Type*} (out : σ → ι → Option ο) (s : σ) : List ι → List ο
  | [] => []
  | i :: is => (out s i).toList ++ ((step s i).map (fun t => outputs out t is)).getD []

theorem outputs_append {ο : Type*} (out : σ → ι → Option ο) {s t : σ} {is : List ι}
    (run : exec step s is = some t) (js : List ι) :
    outputs step out s (is ++ js) = outputs step out s is ++ outputs step out t js := by
  induction is generalizing s with
  | nil =>
      cases run
      rfl
  | cons i is ih =>
      obtain ⟨u, first, rest⟩ := (exec_cons step).mp run
      simp only [List.cons_append, outputs, first, Option.map_some, Option.getD_some, ih rest,
        List.append_assoc]

theorem outputs_snoc {ο : Type*} (out : σ → ι → Option ο) {s t : σ} {is : List ι} {i : ι}
    (run : exec step s is = some t) :
    outputs step out s (is ++ [i]) = outputs step out s is ++ (out t i).toList := by
  rw [outputs_append step out run]
  cases moved : step t i <;> simp [outputs, moved]

theorem outputs_silent {ο : Type*} (out : σ → ι → Option ο) {is : List ι}
    (silent : ∀ i ∈ is, ∀ s, out s i = none) (s : σ) : outputs step out s is = [] := by
  induction is generalizing s with
  | nil => rfl
  | cons i is ih =>
      have rest : ∀ t, outputs step out t is = [] :=
        ih (fun j member => silent j (List.mem_cons_of_mem _ member))
      cases moved : step s i <;> simp [outputs, moved, rest, silent i List.mem_cons_self s]

/-- `t` is one of the states the run goes through, its two ends included. -/
def Visits (s : σ) (is : List ι) (t : σ) : Prop :=
  ∃ past rest, is = past ++ rest ∧ exec step s past = some t

def Takes (s : σ) (is : List ι) (t : σ) (i : ι) : Prop :=
  ∃ past rest, is = past ++ i :: rest ∧ exec step s past = some t

theorem visits_snoc {s t : σ} {is : List ι} {i : ι} (h : Visits step s (is ++ [i]) t) :
    Visits step s is t ∨ exec step s (is ++ [i]) = some t := by
  obtain ⟨past, rest, split, reached⟩ := h
  rcases rest.eq_nil_or_concat' with rfl | ⟨rest, last, rfl⟩
  · rw [List.append_nil] at split
    exact .inr (split ▸ reached)
  · rw [← List.append_assoc] at split
    obtain ⟨same, -⟩ := List.append_inj' split rfl
    exact .inl ⟨past, rest, same, reached⟩

theorem takes_snoc {s t : σ} {is : List ι} {i j : ι} (h : Takes step s (is ++ [i]) t j) :
    Takes step s is t j ∨ (exec step s is = some t ∧ j = i) := by
  obtain ⟨past, rest, split, reached⟩ := h
  rcases rest.eq_nil_or_concat' with rfl | ⟨rest, last, rfl⟩
  · obtain ⟨rfl, same⟩ := List.append_inj' split rfl
    exact .inr ⟨reached, (List.cons.inj same).1.symm⟩
  · rw [← List.cons_append, ← List.append_assoc] at split
    obtain ⟨same, -⟩ := List.append_inj' split rfl
    exact .inl ⟨past, rest, same, reached⟩

theorem Visits.snoc {s t : σ} {is : List ι} (h : Visits step s is t) (i : ι) :
    Visits step s (is ++ [i]) t := by
  obtain ⟨past, rest, rfl, reached⟩ := h
  exact ⟨past, rest ++ [i], by simp, reached⟩

theorem Takes.snoc {s t : σ} {is : List ι} {j : ι} (h : Takes step s is t j) (i : ι) :
    Takes step s (is ++ [i]) t j := by
  obtain ⟨past, rest, rfl, reached⟩ := h
  exact ⟨past, rest ++ [i], by simp, reached⟩

/-- When, under an invariant, an allowed step out of a good state leads to a good state
exactly if the step itself is good, then a run stays in good states exactly if
all of its steps are good. -/
theorem always_iff {Inv Good : σ → Prop} {GoodStep : σ → ι → Prop} {allowed : ι → Prop}
    (inv : ∀ s i t, allowed i → Inv s → step s i = some t → Inv t)
    (exact_ : ∀ s i t, allowed i → Inv s → Good s → step s i = some t → (Good t ↔ GoodStep s i))
    {s t : σ} {is : List ι} (inputs : ∀ i ∈ is, allowed i) (run : exec step s is = some t)
    (start : Inv s) (good : Good s) :
    (∀ u, Visits step s is u → Good u) ↔ (∀ u i, Takes step s is u i → GoodStep u i) := by
  induction is using List.reverseRecOn generalizing t with
  | nil =>
      constructor
      · rintro - u i ⟨past, rest, split, -⟩
        simp at split
      · rintro - u ⟨past, rest, split, reached⟩
        obtain ⟨rfl, rfl⟩ := List.append_eq_nil_iff.mp split.symm
        cases reached
        exact good
  | append_singleton is i ih =>
      obtain ⟨u, before, last⟩ := (exec_snoc step).mp run
      have earlierInputs : ∀ j ∈ is, allowed j :=
        fun j member => inputs j (List.mem_append_left _ member)
      have lastAllowed : allowed i := inputs i (List.mem_append_right _ List.mem_cons_self)
      have reachedInv : Inv u := exec_invariant step inv earlierInputs before start
      constructor
      · intro visits v j takes
        have earlier : ∀ w, Visits step s is w → Good w :=
          fun w hw => visits w (hw.snoc step i)
        rcases takes_snoc step takes with earlierStep | ⟨atU, rfl⟩
        · exact (ih earlierInputs before).mp earlier v j earlierStep
        · obtain rfl : u = v := Option.some.inj (before.symm.trans atU)
          have goodU : Good u := earlier u ⟨is, [], by simp, before⟩
          exact (exact_ u j t lastAllowed reachedInv goodU last).mp
            (visits t ⟨is ++ [j], [], by simp, run⟩)
      · intro steps v visits
        have earlier : ∀ w j, Takes step s is w j → GoodStep w j :=
          fun w j hw => steps w j (hw.snoc step i)
        rcases visits_snoc step visits with earlierState | atEnd
        · exact (ih earlierInputs before).mpr earlier v earlierState
        · obtain rfl : t = v := Option.some.inj (run.symm.trans atEnd)
          have goodU : Good u :=
            (ih earlierInputs before).mpr earlier u ⟨is, [], by simp, before⟩
          exact (exact_ u i t lastAllowed reachedInv goodU last).mpr (steps u i ⟨is, [], rfl, before⟩)

end Machine
