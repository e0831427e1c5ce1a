import Mathlib.Data.List.Basic

/-! # Tilings of an interval of numbers

A list of closed ranges tiles `[low, high)` when each range starts where the one
before it ended. Every number of the interval is then in exactly one range, and
the ranges come in ascending order.
-/

namespace Tiling

def Inside (n : Nat) (range : Nat × Nat) : Prop := range.1 ≤ n ∧ n ≤ range.2

instance (n : Nat) (range : Nat × Nat) : Decidable (Inside n range) :=
  inferInstanceAs (Decidable (_ ∧ _))

def Tiles : Nat → List (Nat × Nat) → Nat → Prop
  | low, [], high => low = high
  | low, range :: ranges, high => range.1 = low ∧ range.1 ≤ range.2 ∧ Tiles (range.2 + 1) ranges high

theorem tiles_le {low high : Nat} {ranges : List (Nat × Nat)} (h : Tiles low ranges high) :
    low ≤ high := by
  induction ranges generalizing low with
  | nil => exact Nat.le_of_eq h
  | cons range ranges ih =>
      obtain ⟨rfl, nonempty, rest⟩ := h
      have := ih rest
      omega

theorem tiles_bounds {low high : Nat} {ranges : List (Nat × Nat)} (h : Tiles low ranges high) :
    ∀ range ∈ ranges, low ≤ range.1 ∧ range.1 ≤ range.2 ∧ range.2 < high := by
  induction ranges generalizing low with
  | nil => simp
  | cons range ranges ih =>
      obtain ⟨rfl, nonempty, rest⟩ := h
      have after := tiles_le rest
      intro r member
      rcases List.mem_cons.mp member with rfl | member
      · exact ⟨Nat.le_refl _, nonempty, by omega⟩
      · have := ih rest r member
        omega

/-- A number of the interval is in one range, any other number in none. -/
theorem tiles_count {low high : Nat} {ranges : List (Nat × Nat)} (h : Tiles low ranges high)
    (n : Nat) :
    (ranges.filter (fun range => Inside n range)).length = if low ≤ n ∧ n < high then 1 else 0 := by
  induction ranges generalizing low with
  | nil =>
      obtain rfl : low = high := h
      rw [if_neg (by omega)]
      rfl
  | cons range ranges ih =>
      obtain ⟨rfl, nonempty, rest⟩ := h
      have after := tiles_le rest
      have tail := ih rest
      rw [List.filter_cons]
      by_cases here : Inside n range
      · obtain ⟨lower, upper⟩ := here
        rw [if_neg (by omega)] at tail
        rw [if_pos (decide_eq_true ⟨lower, upper⟩), List.length_cons, tail, if_pos (by omega)]
      · rw [if_neg (by simpa using here), tail]
        unfold Inside at here
        by_cases later : range.2 + 1 ≤ n ∧ n < high
        · rw [if_pos later, if_pos (by omega)]
        · rw [if_neg later, if_neg (by omega)]

theorem tiles_cover {low high : Nat} {ranges : List (Nat × Nat)} (h : Tiles low ranges high)
    {n : Nat} (lower : low ≤ n) (upper : n < high) : ∃ range ∈ ranges, Inside n range := by
  have count := tiles_count h n
  rw [if_pos ⟨lower, upper⟩] at count
  obtain ⟨range, member⟩ := List.exists_mem_of_length_pos (Nat.lt_of_lt_of_eq Nat.one_pos count.symm)
  obtain ⟨inRanges, inside⟩ := List.mem_filter.mp member
  exact ⟨range, inRanges, of_decide_eq_true inside⟩

theorem tiles_ascending {low high : Nat} {ranges : List (Nat × Nat)} (h : Tiles low ranges high) :
    ranges.Pairwise (fun range range' => range.2 < range'.1) := by
  induction ranges generalizing low with
  | nil => exact List.Pairwise.nil
  | cons range ranges ih =>
      obtain ⟨rfl, nonempty, rest⟩ := h
      apply List.pairwise_cons.mpr
      refine ⟨?_, ih rest⟩
      intro r member
      have := tiles_bounds rest r member
      omega

/-- Ranges of `size` numbers from `low` on, the last one cut off at `high`. -/
inductive Cut (size : Nat) : Nat → List (Nat × Nat) → Nat → Prop where
  | last {low high : Nat} (ordered : low ≤ high) (short : high < low + size) :
      Cut size low [(low, high)] high
  | full {low last high : Nat} {ranges : List (Nat × Nat)} (size_ : last + 1 = low + size)
      (rest : Cut size (low + size) ranges high) : Cut size low ((low, last) :: ranges) high

section Cut

variable {size low high : Nat} {ranges : List (Nat × Nat)}

theorem Cut.le (h : Cut size low ranges high) : low ≤ high := by
  induction h with
  | last ordered short => exact ordered
  | full size_ rest ih => omega

theorem Cut.positive (h : Cut size low ranges high) : 0 < size := by
  induction h with
  | last ordered short => omega
  | full size_ rest ih => exact ih

theorem Cut.tiles (h : Cut size low ranges high) : Tiles low ranges (high + 1) := by
  induction h with
  | last ordered short => exact ⟨rfl, ordered, rfl⟩
  | @full low last high ranges size_ rest ih =>
      have positive := rest.positive
      have ordered : low ≤ last := by omega
      refine ⟨rfl, ordered, ?_⟩
      rw [size_]
      exact ih

theorem Cut.count (h : Cut size low ranges high) : ranges.length = (high - low) / size + 1 := by
  induction h with
  | last ordered short => rw [Nat.div_eq_of_lt (by omega)]; rfl
  | @full low last high ranges size_ rest ih =>
      have le := rest.le
      have difference : high - low = high - (low + size) + size := by omega
      rw [List.length_cons, ih, difference, Nat.add_div_right _ rest.positive]

theorem Cut.head (h : Cut size low ranges high) : ranges.head?.map Prod.fst = some low := by
  cases h <;> rfl

theorem Cut.getLast (h : Cut size low ranges high) :
    ∃ range, ranges.getLast? = some range ∧ range.2 = high ∧ range.1 ≤ high ∧
      high < range.1 + size := by
  induction h with
  | @last low high ordered short => exact ⟨(low, high), rfl, rfl, ordered, short⟩
  | full size_ rest ih =>
      obtain ⟨range, isLast, ends, ordered, short⟩ := ih
      refine ⟨range, ?_, ends, ordered, short⟩
      rw [List.getLast?_cons, isLast]
      rfl

theorem Cut.narrow (h : Cut size low ranges high) :
    ∀ range ∈ ranges, range.2 < range.1 + size := by
  induction h with
  | last ordered short => simpa using short
  | full size_ rest ih =>
      refine List.forall_mem_cons.mpr ⟨?_, ih⟩
      simp only
      omega

/-- Each range but the last is full and the next one follows on it. -/
theorem Cut.chain (h : Cut size low ranges high) :
    ranges.IsChain (fun range next => range.2 + 1 = range.1 + size ∧ next.1 = range.2 + 1) := by
  induction h with
  | last ordered short => exact .singleton _
  | @full low last high ranges size_ rest ih =>
      cases rest with
      | last ordered short => exact .cons_cons ⟨size_, size_.symm⟩ (.singleton _)
      | full size_' rest => exact .cons_cons ⟨size_, size_.symm⟩ ih

end Cut

end Tiling
