import Mathlib.Tactic.Common

/-! # Loops that may diverge or panic

A `while` loop over a state `σ` is given by what one turn of it does. `Returns`
says that the loop ends with a result; a loop that panics or goes round forever
returns nothing, so it has no result rather than a made-up one.
-/

namespace Loop

/-- What one turn of a loop does. -/
inductive Turn (σ ρ : Type) where
  | next (s : σ)
  | leave (r : ρ)
  | panic

variable {σ ρ : Type} (turn : σ → Turn σ ρ)

inductive Returns : σ → ρ → Prop where
  | leave {s r} : turn s = .leave r → Returns s r
  | next {s t r} : turn s = .next t → Returns t r → Returns s r

/-- The states at the head of a turn. -/
inductive Reaches (s : σ) : σ → Prop where
  | start : Reaches s s
  | next {t u} : Reaches s t → turn t = .next u → Reaches s u

def run : Nat → σ → Option ρ
  | 0, _ => none
  | fuel + 1, s => match turn s with
      | .next t => run fuel t
      | .leave r => some r
      | .panic => none

variable {turn}

theorem Reaches.invariant {P : σ → Prop} (keeps : ∀ s t, P s → turn s = .next t → P t) {s t : σ}
    (h : Reaches turn s t) (first : P s) : P t := by
  induction h with
  | start => exact first
  | next _ goes ih => exact keeps _ _ ih goes

theorem Reaches.after {s t u : σ} (goes : turn s = .next t) (h : Reaches turn t u) :
    Reaches turn s u := by
  induction h with
  | start => exact .next .start goes
  | next _ goes' ih => exact .next ih goes'

/-- A loop that never panics and whose turns decrease a measure returns. -/
theorem returns_of_measure {P : σ → Prop} (measure : σ → Nat)
    (keeps : ∀ s t, P s → turn s = .next t → P t ∧ measure t < measure s)
    (goes : ∀ s, P s → turn s ≠ .panic) {s : σ} (first : P s) : ∃ r, Returns turn s r := by
  induction bound : measure s using Nat.strongRecOn generalizing s with
  | ind n ih =>
      cases ht : turn s with
      | next t =>
          obtain ⟨kept, less⟩ := keeps s t first ht
          obtain ⟨r, rest⟩ := ih (measure t) (by omega) kept rfl
          exact ⟨r, .next ht rest⟩
      | leave r => exact ⟨r, .leave ht⟩
      | panic => exact absurd ht (goes s first)

theorem Returns.unique {s : σ} {r r' : ρ} (h : Returns turn s r) (h' : Returns turn s r') :
    r = r' := by
  induction h with
  | leave left =>
      cases h' with
      | leave left' => exact Turn.leave.inj (left.symm.trans left')
      | next goes _ => cases left.symm.trans goes
  | next goes _ ih =>
      cases h' with
      | leave left => cases left.symm.trans goes
      | next goes' rest => exact ih (Turn.next.inj (goes'.symm.trans goes) ▸ rest)

/-- A loop that takes the same turns wherever the first does not panic returns the same. -/
theorem Returns.of_turns {turn' : σ → Turn σ ρ} (same : ∀ s, turn s ≠ .panic → turn' s = turn s)
    {s : σ} {r : ρ} (h : Returns turn s r) : Returns turn' s r := by
  induction h with
  | leave left =>
      refine .leave ((same _ ?_).trans left)
      intro panics
      cases left.symm.trans panics
  | next goes _ ih =>
      refine .next ((same _ ?_).trans goes) ih
      intro panics
      cases goes.symm.trans panics

theorem returns_of_run {fuel : Nat} {s : σ} {r : ρ} (h : run turn fuel s = some r) :
    Returns turn s r := by
  induction fuel generalizing s with
  | zero => cases h
  | succ fuel ih =>
      rw [run] at h
      cases ht : turn s with
      | next t => exact .next ht (ih (by simpa only [ht] using h))
      | leave r' =>
          obtain rfl : r' = r := by simpa only [ht, Option.some.injEq] using h
          exact .leave ht
      | panic => simp only [ht, reduceCtorEq] at h

end Loop
