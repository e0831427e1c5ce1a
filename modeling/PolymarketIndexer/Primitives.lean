import Mathlib.Algebra.Group.Nat.Defs
import Mathlib.Tactic.Common

/-! # Machine integers and Solidity values

`u64` is `UInt64`. The arithmetic the program uses on it is checked, wrapping or
saturating, and each of the three is spelled out here. The Solidity value types
are the fixed-width words of the contract ABI.
-/

namespace PolymarketIndexer

structure B256 where
  word : BitVec 256
  deriving DecidableEq, Repr

structure Address where
  word : BitVec 160
  deriving DecidableEq, Repr

structure U256 where
  word : BitVec 256
  deriving DecidableEq, Repr

structure Bytes where
  data : List UInt8
  deriving DecidableEq, Repr

namespace U64

def max : UInt64 := 18446744073709551615

def saturatingAdd (a b : UInt64) : UInt64 :=
  if a.toNat + b.toNat < 2 ^ 64 then a + b else max

theorem saturatingAdd_toNat (a b : UInt64) :
    (saturatingAdd a b).toNat = min (a.toNat + b.toNat) (2 ^ 64 - 1) := by
  unfold saturatingAdd
  split
  · rename_i inside
    rw [UInt64.toNat_add]
    omega
  · have : max.toNat = 2 ^ 64 - 1 := rfl
    omega

def saturatingSub (a b : UInt64) : UInt64 := if b ≤ a then a - b else 0

theorem saturatingSub_toNat (a b : UInt64) : (saturatingSub a b).toNat = a.toNat - b.toNat := by
  unfold saturatingSub
  split
  · rename_i le
    exact UInt64.toNat_sub_of_le _ _ le
  · rename_i lt
    have below := UInt64.lt_iff_toNat_lt.mp (UInt64.not_le.mp lt)
    rw [UInt64.toNat_zero]
    omega

end U64

/-- How a build treats integer overflow: a debug build panics (`none`), a release build wraps. -/
inductive Overflow where
  | checked
  | wrapping
  deriving DecidableEq, Repr

namespace Overflow

def add (mode : Overflow) (a b : UInt64) : Option UInt64 :=
  match mode with
  | checked => if a.toNat + b.toNat < 2 ^ 64 then some (a + b) else none
  | wrapping => some (a + b)

def sub (mode : Overflow) (a b : UInt64) : Option UInt64 :=
  match mode with
  | checked => if b ≤ a then some (a - b) else none
  | wrapping => some (a - b)

/-- Where the sum fits, the two builds agree on it. -/
theorem add_exact (mode : Overflow) {a b : UInt64} (fits : a.toNat + b.toNat < 2 ^ 64) :
    mode.add a b = some (a + b) ∧ (a + b).toNat = a.toNat + b.toNat := by
  refine ⟨?_, ?_⟩
  · cases mode with
    | checked => exact if_pos fits
    | wrapping => rfl
  · rw [UInt64.toNat_add, Nat.mod_eq_of_lt fits]

theorem sub_exact (mode : Overflow) {a b : UInt64} (le : b ≤ a) :
    mode.sub a b = some (a - b) ∧ (a - b).toNat = a.toNat - b.toNat := by
  refine ⟨?_, UInt64.toNat_sub_of_le _ _ le⟩
  cases mode with
  | checked => exact if_pos le
  | wrapping => rfl

end Overflow

end PolymarketIndexer
