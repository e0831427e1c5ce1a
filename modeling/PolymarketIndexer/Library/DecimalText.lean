import Mathlib.Data.List.Basic

/-! # Decimal text joined by separators

Reading back a text of the form `number ++ separator ++ rest`. The separator is
found as the first character a decimal rendering cannot contain, so the number
and the rest of the text are determined by the whole. Both unsigned and signed
renderings are covered; a signed one may start with a minus sign.
-/

namespace DecimalText

/-- Cutting two equal texts at a separator absent from both heads. -/
theorem append_cons_inj {α : Type*} {sep : α} {xs xs' ys ys' : List α}
    (hx : sep ∉ xs) (hx' : sep ∉ xs') (h : xs ++ sep :: ys = xs' ++ sep :: ys') :
    xs = xs' ∧ ys = ys' := by
  induction xs generalizing xs' with
  | nil =>
      cases xs' with
      | nil => exact ⟨rfl, (List.cons.inj h).2⟩
      | cons x xs' =>
          have : sep = x := (List.cons.inj h).1
          exact absurd (List.mem_cons.mpr (.inl this)) hx'
  | cons x xs ih =>
      cases xs' with
      | nil =>
          have : x = sep := (List.cons.inj h).1
          exact absurd (List.mem_cons.mpr (.inl this.symm)) hx
      | cons x' xs' =>
          obtain ⟨rfl, htail⟩ := List.cons.inj h
          obtain ⟨rfl, rfl⟩ := ih (fun m => hx (List.mem_cons_of_mem _ m))
            (fun m => hx' (List.mem_cons_of_mem _ m)) htail
          exact ⟨rfl, rfl⟩

def digits (n : Nat) : List Char := (toString n).toList

theorem digits_injective {m n : Nat} (h : digits m = digits n) : m = n := by
  have read := congrArg (fun cs => Nat.ofDigitChars 10 cs 0) h
  simpa [digits, Nat.toString_eq_ofList_toDigits] using read

theorem isDigit_of_mem_digits {n : Nat} {c : Char} (h : c ∈ digits n) : c.isDigit := by
  simp only [digits, Nat.toString_eq_ofList_toDigits, String.toList_ofList] at h
  exact Nat.isDigit_of_mem_toDigits (by decide) (by decide) h

theorem not_mem_digits {n : Nat} {c : Char} (h : c.isDigit = false) : c ∉ digits n := by
  intro member
  simp [isDigit_of_mem_digits member] at h

def signedDigits (z : Int) : List Char := (toString z).toList

theorem signedDigits_negSucc (n : Nat) :
    signedDigits (Int.negSucc n) = '-' :: digits (n + 1) := by
  simp [signedDigits, digits, Int.toString_eq_repr, Int.repr_eq_if]

theorem signedDigits_injective {y z : Int} (h : signedDigits y = signedDigits z) : y = z := by
  have minus : ∀ n, '-' ∉ digits n := fun n => not_mem_digits (by decide)
  cases y with
  | ofNat m =>
      cases z with
      | ofNat n => exact congrArg Int.ofNat (digits_injective h)
      | negSucc n =>
          have : '-' ∈ signedDigits m := by
            change signedDigits m = _ at h
            rw [h, signedDigits_negSucc]
            exact List.mem_cons_self
          exact absurd this (minus m)
  | negSucc m =>
      cases z with
      | ofNat n =>
          have : '-' ∈ signedDigits n := by
            change _ = signedDigits n at h
            rw [← h, signedDigits_negSucc]
            exact List.mem_cons_self
          exact absurd this (minus n)
      | negSucc n =>
          rw [signedDigits_negSucc, signedDigits_negSucc] at h
          have := digits_injective (List.cons.inj h).2
          exact congrArg Int.negSucc (Nat.succ.inj this)

theorem not_mem_signedDigits {z : Int} {c : Char} (digit : c.isDigit = false)
    (sign : c ≠ '-') : c ∉ signedDigits z := by
  cases z with
  | ofNat n => exact not_mem_digits digit
  | negSucc n =>
      rw [signedDigits_negSucc, List.mem_cons]
      rintro (same | member)
      · exact sign same
      · exact not_mem_digits digit member

end DecimalText
