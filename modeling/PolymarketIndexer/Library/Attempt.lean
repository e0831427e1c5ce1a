import Mathlib.Logic.Basic

/-! # Fallible steps over a mutable state

A function that takes its receiver by mutable reference and may fail changes the
receiver on both ends: the state left behind by a failure is part of its meaning.
`Attempt σ α` is such a function. Running one after another stops at the first
failure and keeps the state reached there.
-/

def Attempt (σ α : Type) : Type := σ → Except String α × σ

namespace Attempt

variable {σ τ α β : Type}

def run (x : Attempt σ α) (s : σ) : Except String α × σ := x s

instance : Monad (Attempt σ) where
  pure a := fun s => (.ok a, s)
  bind x f := fun s => match x s with
    | (.ok a, t) => f a t
    | (.error e, t) => (.error e, t)

def get : Attempt σ σ := fun s => (.ok s, s)

def modify (f : σ → σ) : Attempt σ Unit := fun s => (.ok (), f s)

/-- The answer of a call to the outside world. -/
def answer (r : Except String α) : Attempt σ α := fun s => (r, s)

def fail (e : String) : Attempt σ α := fun s => (.error e, s)

def on (view : τ → σ) (put : τ → σ → τ) (x : Attempt σ α) : Attempt τ α := fun t =>
  ((x.run (view t)).1, put t (x.run (view t)).2)

@[simp] theorem run_pure (a : α) (s : σ) : (pure a : Attempt σ α).run s = (.ok a, s) := rfl

@[simp] theorem run_get (s : σ) : (get : Attempt σ σ).run s = (.ok s, s) := rfl

@[simp] theorem run_modify (f : σ → σ) (s : σ) : (modify f).run s = (.ok (), f s) := rfl

@[simp] theorem run_answer (r : Except String α) (s : σ) :
    (answer r : Attempt σ α).run s = (r, s) := rfl

@[simp] theorem run_fail (e : String) (s : σ) :
    (fail e : Attempt σ α).run s = (.error e, s) := rfl

@[simp] theorem run_on (view : τ → σ) (put : τ → σ → τ) (x : Attempt σ α) (t : τ) :
    (x.on view put).run t = ((x.run (view t)).1, put t (x.run (view t)).2) := rfl

theorem run_bind (x : Attempt σ α) (f : α → Attempt σ β) (s : σ) :
    (x >>= f).run s = match x.run s with
      | (.ok a, t) => (f a).run t
      | (.error e, t) => (.error e, t) := rfl

theorem run_bind_ok {x : Attempt σ α} {f : α → Attempt σ β} {s t : σ} {a : α}
    (h : x.run s = (.ok a, t)) : (x >>= f).run s = (f a).run t := by
  rw [run_bind, h]

theorem run_bind_error {x : Attempt σ α} {f : α → Attempt σ β} {s t : σ} {e : String}
    (h : x.run s = (.error e, t)) : (x >>= f).run s = (.error e, t) := by
  rw [run_bind, h]

theorem bind_ok {x : Attempt σ α} {f : α → Attempt σ β} {s u : σ} {b : β}
    (h : (x >>= f).run s = (.ok b, u)) :
    ∃ a t, x.run s = (.ok a, t) ∧ (f a).run t = (.ok b, u) := by
  rw [run_bind] at h
  rcases hx : x.run s with ⟨_ | a, t⟩
  · simp [hx] at h
  · exact ⟨a, t, rfl, by simpa [hx] using h⟩

theorem bind_error {x : Attempt σ α} {f : α → Attempt σ β} {s u : σ} {e : String}
    (h : (x >>= f).run s = (.error e, u)) :
    x.run s = (.error e, u) ∨ ∃ a t, x.run s = (.ok a, t) ∧ (f a).run t = (.error e, u) := by
  rw [run_bind] at h
  rcases hx : x.run s with ⟨e' | a, t⟩
  · simp only [hx, Prod.mk.injEq, Except.error.injEq] at h
    obtain ⟨rfl, rfl⟩ := h
    exact .inl rfl
  · exact .inr ⟨a, t, rfl, by simpa [hx] using h⟩

/-- A failure behind an answer is the answer itself or comes later, from the same state. -/
theorem answer_bind_error {r : Except String α} {f : α → Attempt σ β} {s u : σ} {e : String}
    (h : (answer r >>= f).run s = (.error e, u)) :
    (r = .error e ∧ u = s) ∨ ∃ a, r = .ok a ∧ (f a).run s = (.error e, u) := by
  rcases bind_error h with failed | ⟨a, t, answered, rest⟩
  · obtain ⟨refused, same⟩ := Prod.mk.inj failed
    exact .inl ⟨refused, same.symm⟩
  · rw [run_answer] at answered
    obtain ⟨given, rfl⟩ := Prod.mk.inj answered
    exact .inr ⟨a, given, rest⟩

section Keeps

variable {P : σ → Prop}

/-- A property of the state that a function keeps, whether it fails or not. -/
def Keeps (P : σ → Prop) (x : Attempt σ α) : Prop := ∀ s, P s → P (x.run s).2

theorem keeps_pure (a : α) : Keeps P (pure a : Attempt σ α) := fun _ before => before

theorem keeps_answer (r : Except String α) : Keeps P (answer r : Attempt σ α) :=
  fun _ before => before

theorem keeps_fail (e : String) : Keeps P (fail e : Attempt σ α) := fun _ before => before

theorem keeps_modify {f : σ → σ} (h : ∀ s, P s → P (f s)) : Keeps P (modify f) := h

theorem Keeps.bind {x : Attempt σ α} {f : α → Attempt σ β} (first : Keeps P x)
    (rest : ∀ a, Keeps P (f a)) : Keeps P (x >>= f) := by
  intro s before
  have reached := first s before
  rw [run_bind]
  rcases ran : x.run s with ⟨_ | a, t⟩
  · rw [ran] at reached
    exact reached
  · rw [ran] at reached
    exact rest a t reached

/-- What follows may use that the state it was given had the property. -/
theorem keeps_get_bind {f : σ → Attempt σ β} (rest : ∀ s, P s → Keeps P (f s)) :
    Keeps P (get >>= f) := fun s before => rest s before s before

end Keeps

end Attempt
