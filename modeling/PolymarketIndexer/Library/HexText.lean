import Mathlib.Algebra.Group.Nat.Defs
import Mathlib.Data.List.Basic

/-! # Hexadecimal text

Lower-case hexadecimal renderings of numbers, of a fixed width or without leading
zeros, and of byte strings. Each of them determines what it renders, and can be read back.
-/

namespace HexText

/-- The sixteen digits. -/
def digit (n : Nat) : Char := Nat.digitChar (n % 16)

theorem digit_inj {m n : Nat} (h : digit m = digit n) : m % 16 = n % 16 := by
  have table : ∀ a < 16, ∀ b < 16, Nat.digitChar a = Nat.digitChar b → a = b := by decide
  exact table _ (Nat.mod_lt _ (by decide)) _ (Nat.mod_lt _ (by decide)) h

/-- Exactly `width` digits of a number, the most significant first. -/
def fixed : Nat → Nat → List Char
  | 0, _ => []
  | width + 1, n => fixed width (n / 16) ++ [digit n]

@[simp] theorem fixed_length (width n : Nat) : (fixed width n).length = width := by
  induction width generalizing n with
  | zero => rfl
  | succ width ih => simp only [fixed, List.length_append, ih, List.length_singleton]

theorem fixed_injective {width m n : Nat} (hm : m < 16 ^ width) (hn : n < 16 ^ width)
    (h : fixed width m = fixed width n) : m = n := by
  induction width generalizing m n with
  | zero => omega
  | succ width ih =>
      obtain ⟨front, last⟩ := List.append_inj' h rfl
      have low := digit_inj (List.cons.inj last).1
      have high : m / 16 = n / 16 := ih (by omega) (by omega) front
      omega

/-- The digits of a number, zero having the one digit `0`. -/
def minimal (n : Nat) : List Char := Nat.toDigits 16 n

theorem minimal_injective {m n : Nat} (h : minimal m = minimal n) : m = n := by
  have one : ∀ k < 16, minimal k = [Nat.digitChar k] := fun k hk => Nat.toDigits_of_lt_base hk
  have more : ∀ k, 16 ≤ k → minimal k = minimal (k / 16) ++ [Nat.digitChar (k % 16)] :=
    fun k hk => Nat.toDigits_of_base_le (by decide) hk
  have nonempty : ∀ k, minimal k ≠ [] := fun _ => Nat.toDigits_ne_nil
  induction m using Nat.strongRecOn generalizing n with
  | ind m ih =>
      by_cases small : m < 16
      · by_cases small' : n < 16
        · rw [one m small, one n small'] at h
          have := digit_inj (m := m) (n := n) (by
            simpa [digit, Nat.mod_eq_of_lt small, Nat.mod_eq_of_lt small'] using h)
          omega
        · rw [one m small, more n (by omega)] at h
          have := congrArg List.length h
          have := List.length_pos_of_ne_nil (nonempty (n / 16))
          simp only [List.length_append, List.length_singleton] at *
          omega
      · by_cases small' : n < 16
        · rw [one n small', more m (by omega)] at h
          have := congrArg List.length h
          have := List.length_pos_of_ne_nil (nonempty (m / 16))
          simp only [List.length_append, List.length_singleton] at *
          omega
        · rw [more m (by omega), more n (by omega)] at h
          obtain ⟨front, last⟩ := List.append_inj' h rfl
          have high := ih (m / 16) (by omega) front
          have low := digit_inj (m := m) (n := n) (List.cons.inj last).1
          omega

/-- Two digits a byte. -/
def bytes (data : List UInt8) : List Char := data.flatMap (fun b => fixed 2 b.toNat)

theorem bytes_injective {xs ys : List UInt8} (h : bytes xs = bytes ys) : xs = ys := by
  induction xs generalizing ys with
  | nil =>
      cases ys with
      | nil => rfl
      | cons y ys => simp [bytes, fixed] at h
  | cons x xs ih =>
      cases ys with
      | nil => simp [bytes, fixed] at h
      | cons y ys =>
          obtain ⟨head, tail⟩ := List.append_inj h (by simp)
          have same := fixed_injective (by have := x.toNat_lt; omega)
            (by have := y.toNat_lt; omega) head
          rw [UInt8.toNat_inj.mp same, ih tail]

section Reading

def digit? (c : Char) : Option Nat := "0123456789abcdef".toList.idxOf? c

theorem digit?_digit (n : Nat) : digit? (digit n) = some (n % 16) := by
  have table : ∀ k < 16, digit? (Nat.digitChar k) = some k := by decide
  exact table _ (Nat.mod_lt _ (by decide))

/-- The number whose digits are those of another and some more. -/
def readFrom (start : Nat) (text : List Char) : Option Nat :=
  text.foldlM (fun n c => (n * 16 + ·) <$> digit? c) start

def read (text : List Char) : Option Nat := readFrom 0 text

theorem readFrom_digit (start n : Nat) : readFrom start [digit n] = some (start * 16 + n % 16) := by
  simp [readFrom, digit?_digit]

theorem read_snoc {text : List Char} {high : Nat} (front : read text = some high) (n : Nat) :
    read (text ++ [digit n]) = some (high * 16 + n % 16) := by
  have last := readFrom_digit high n
  unfold read readFrom at *
  rw [List.foldlM_append, front]
  exact last

theorem read_fixed {width n : Nat} (fits : n < 16 ^ width) : read (fixed width n) = some n := by
  induction width generalizing n with
  | zero =>
      obtain rfl : n = 0 := by omega
      rfl
  | succ width ih =>
      have whole := read_snoc (ih (n := n / 16) (by omega)) n
      rw [Nat.mul_comm, Nat.div_add_mod] at whole
      exact whole

theorem read_minimal (n : Nat) : read (minimal n) = some n := by
  induction n using Nat.strongRecOn with
  | ind n ih =>
      by_cases small : n < 16
      · have one : minimal n = [digit n] := by
          rw [minimal, Nat.toDigits_of_lt_base small, digit, Nat.mod_eq_of_lt small]
        rw [one, read, readFrom_digit, Nat.mod_eq_of_lt small, Nat.zero_mul, Nat.zero_add]
      · have more : minimal n = minimal (n / 16) ++ [digit n] :=
          Nat.toDigits_of_base_le (by decide) (Nat.le_of_not_lt small)
        have whole := read_snoc (ih (n / 16) (by omega)) n
        rw [Nat.mul_comm, Nat.div_add_mod] at whole
        rw [more, whole]

def readBytes : List Char → Option (List UInt8)
  | [] => some []
  | [_] => none
  | high :: low :: rest => do
      let byte ← read [high, low]
      let bytes ← readBytes rest
      return UInt8.ofNat byte :: bytes

theorem readBytes_bytes (data : List UInt8) : readBytes (bytes data) = some data := by
  induction data with
  | nil => rfl
  | cons byte data ih =>
      have whole := @read_fixed 2 _ byte.toNat_lt
      have pair : bytes (byte :: data) =
          digit (byte.toNat / 16) :: digit byte.toNat :: bytes data := by
        simp [bytes, fixed]
      have two : fixed 2 byte.toNat = [digit (byte.toNat / 16), digit byte.toNat] := by
        simp [fixed]
      rw [two] at whole
      rw [pair, readBytes, whole, ih]
      simp

end Reading

end HexText
