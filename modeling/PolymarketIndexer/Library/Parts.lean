import Mathlib.Data.List.Basic
import Mathlib.Data.List.Count
import Mathlib.Data.List.Perm.Basic

/-! # Items spread over parts

Each part holds, of a common pool, the items inside of it. The parts of a list put
together are one given part exactly when every item of the pool is inside as many of
them as it should be.
-/

namespace Parts

variable {α β : Type} [DecidableEq β]

/-- An item is in a part as often as in the pool when it is inside, else not at all. -/
structure Spread (part : α → List β) (inside : β → α → Prop) (pool : β → Nat) : Prop where
  here : ∀ c r, inside r c → (part c).count r = pool r
  elsewhere : ∀ c r, ¬inside r c → (part c).count r = 0

variable {part : α → List β} {inside : β → α → Prop} [∀ r c, Decidable (inside r c)]
  {pool : β → Nat}

theorem count_part (spread : Spread part inside pool) (c : α) (r : β) :
    (part c).count r = (if inside r c then 1 else 0) * pool r := by
  split
  · rename_i here
    rw [spread.here c r here, Nat.one_mul]
  · rename_i elsewhere
    rw [spread.elsewhere c r elsewhere, Nat.zero_mul]

theorem count_parts (spread : Spread part inside pool) (parts : List α) (r : β) :
    (parts.flatMap part).count r = (parts.filter (fun c => inside r c)).length * pool r := by
  induction parts with
  | nil => simp
  | cons c parts ih =>
      rw [List.flatMap_cons, List.count_append, ih, count_part spread, List.filter_cons]
      by_cases here : inside r c
      · rw [if_pos here, if_pos (decide_eq_true here), List.length_cons, Nat.add_mul, Nat.add_comm]
      · rw [if_neg here, if_neg (by simpa using here), Nat.zero_mul, Nat.zero_add]

/-- The parts make up a part exactly when each item is inside just one of them or, when it is
not inside that part, inside none. -/
theorem parts_perm_iff (spread : Spread part inside pool) {parts : List α} {whole : α} :
    (parts.flatMap part).Perm (part whole) ↔ ∀ r, 0 < pool r →
      (parts.filter (fun c => inside r c)).length = if inside r whole then 1 else 0 := by
  rw [List.perm_iff_count]
  apply forall_congr'
  intro r
  rw [count_parts spread, count_part spread]
  constructor
  · intro same pooled
    exact Nat.eq_of_mul_eq_mul_right pooled same
  · intro same
    rcases Nat.eq_zero_or_pos (pool r) with none_ | pooled
    · rw [none_, Nat.mul_zero, Nat.mul_zero]
    · rw [same pooled]

/-- A part that holds items is not in the list twice when no item is inside twice. -/
theorem parts_apart (spread : Spread part inside pool) {parts : List α}
    (once : ∀ r, 0 < pool r → (parts.filter (fun c => inside r c)).length ≤ 1) :
    parts.Pairwise (fun c c' => c = c' → part c = []) := by
  induction parts with
  | nil => exact .nil
  | cons c parts ih =>
      apply List.pairwise_cons.mpr
      constructor
      · rintro _ again rfl
        by_contra filled
        obtain ⟨r, member⟩ := List.exists_mem_of_ne_nil _ filled
        have counted : 0 < (part c).count r := List.count_pos_iff.mpr member
        have isInside : inside r c := by
          by_contra out
          rw [spread.elsewhere c r out] at counted
          exact Nat.lt_irrefl 0 counted
        rw [spread.here c r isInside] at counted
        have twice := once r counted
        rw [List.filter_cons, if_pos (decide_eq_true isInside), List.length_cons] at twice
        have : 0 < (parts.filter (fun c => inside r c)).length :=
          List.length_pos_of_mem (List.mem_filter.mpr ⟨again, decide_eq_true isInside⟩)
        omega
      · apply ih
        intro r pooled
        have sub := (List.sublist_cons_self c parts).filter (fun c => decide (inside r c))
        exact Nat.le_trans sub.length_le (once r pooled)

end Parts
