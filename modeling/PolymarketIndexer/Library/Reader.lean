import Mathlib.Data.List.Basic
import Mathlib.Data.List.Perm.Basic

/-! # Reading a log in several passes

A log has positions; some hold an item. A reader goes over it from an origin in passes: a pass
opens at a position and moves forward. Whether each item up to the furthest position
read was handed out exactly once depends on where the passes open.
-/

structure Reader (β : Type) where
  origin : Nat
  opened : Nat
  cursor : Nat
  reached : Nat
  /-- What the earlier passes handed out. -/
  before : List β

namespace Reader

variable {β : Type} (item : Nat → List β)

/-- The items between two positions. -/
def span (low high : Nat) : List β := (List.range' low (high - low)).flatMap item

/-- A reader about to make its first pass. -/
def start (origin : Nat) : Reader β :=
  { origin := origin, opened := origin, cursor := origin, reached := origin, before := [] }

/-- What the reader has handed out. -/
def handed (r : Reader β) : List β := r.before ++ span item r.opened r.cursor

/-- Begin another pass. -/
def reopen (r : Reader β) (position : Nat) : Reader β :=
  { r with opened := position, cursor := position, before := r.handed item }

/-- Move past a position. -/
def advance (r : Reader β) (position : Nat) : Reader β :=
  { r with cursor := position + 1, reached := max r.reached (position + 1) }

def ExactlyOnce (r : Reader β) : Prop := (r.handed item).Perm (span item r.origin r.reached)

variable {item}

@[simp] theorem span_self (n : Nat) : span item n n = [] := by
  simp [span]

theorem span_append {low mid high : Nat} (first : low ≤ mid) (second : mid ≤ high) :
    span item low high = span item low mid ++ span item mid high := by
  have cut : List.range' low (high - low) =
      List.range' low (mid - low) ++ List.range' mid (high - mid) := by
    have joined := @List.range'_append_1 low (mid - low) (high - mid)
    rw [show low + (mid - low) = mid by omega,
      show mid - low + (high - mid) = high - low by omega] at joined
    exact joined.symm
  rw [span, cut, List.flatMap_append]
  rfl

theorem span_one (n : Nat) : span item n (n + 1) = item n := by
  simp [span]

/-- Positions without an item add nothing. -/
theorem span_skip {low high : Nat} (le : low ≤ high)
    (none_ : ∀ n, low ≤ n → n < high → item n = []) : span item low high = [] := by
  apply List.flatMap_eq_nil_iff.mpr
  intro n member
  obtain ⟨lower, upper⟩ := List.mem_range'_1.mp member
  exact none_ n lower (by omega)

theorem span_length_le {low mid high : Nat} (first : low ≤ mid) (second : mid ≤ high) :
    (span item low mid).length ≤ (span item low high).length := by
  rw [span_append first second, List.length_append]
  exact Nat.le_add_right _ _

@[simp] theorem handed_reopen (r : Reader β) (position : Nat) :
    (r.reopen item position).handed item = r.handed item := by
  simp [handed, reopen]

theorem exactlyOnce_start (origin : Nat) : (start origin : Reader β).ExactlyOnce item := by
  simp [ExactlyOnce, handed, start]

section Advance

variable {r : Reader β} {position : Nat}

/-- The next position is handed out after everything before it. -/
theorem handed_advance (inPass : r.opened ≤ r.cursor) (ahead : r.cursor ≤ position)
    (none_ : ∀ n, r.cursor ≤ n → n < position → item n = []) :
    (r.advance position).handed item = r.handed item ++ item position := by
  unfold handed advance
  rw [span_append (Nat.le_trans inPass ahead) (Nat.le_succ position), span_one,
    span_append inPass ahead, span_skip ahead none_, List.append_nil, List.append_assoc]

/-- A pass that opens at the origin hands out again what earlier passes did: it may move on
only past positions without an item, or when the earlier passes handed out nothing. -/
theorem advance_rewound (rewound : r.opened = r.origin) (inPass : r.opened ≤ r.cursor)
    (within : r.origin ≤ r.reached) (ahead : r.cursor ≤ position)
    (none_ : ∀ n, r.cursor ≤ n → n < position → item n = []) (good : r.ExactlyOnce item) :
    (r.advance position).ExactlyOnce item ↔ item position = [] ∨ r.before = [] := by
  have now := handed_advance inPass ahead none_
  have pass : span item r.origin (position + 1) = span item r.origin r.cursor ++ item position := by
    rw [span_append (Nat.le_trans (rewound ▸ inPass) ahead) (Nat.le_succ position), span_one,
      span_append (rewound ▸ inPass) ahead, span_skip ahead none_, List.append_nil]
  have handedOut : r.handed item = r.before ++ span item r.origin r.cursor := by
    rw [handed, rewound]
  have lengths := good.length_eq
  rw [handedOut, List.length_append] at lengths
  unfold ExactlyOnce
  rw [now]
  simp only [advance]
  constructor
  · intro again
    by_contra bad
    obtain ⟨holds, earlier⟩ := not_or.mp bad
    have positive : 0 < (item position).length := List.length_pos_iff.mpr holds
    have some_ : 0 < r.before.length := List.length_pos_iff.mpr earlier
    have counts := again.length_eq
    rw [List.length_append, handedOut, List.length_append] at counts
    rcases Nat.le_total (position + 1) r.reached with old | new
    · rw [Nat.max_eq_left old] at counts
      omega
    · rw [Nat.max_eq_right new, pass, List.length_append] at counts
      omega
  · intro fine
    rcases Nat.le_total (position + 1) r.reached with old | new
    · rw [Nat.max_eq_left old]
      have grows := @span_length_le _ item _ _ _ (Nat.le_trans (rewound ▸ inPass)
        (Nat.le_trans ahead (Nat.le_succ position))) old
      rw [pass, List.length_append] at grows
      have empty : item position = [] := by
        rcases fine with empty | first
        · exact empty
        · rw [first, List.length_nil] at lengths
          exact List.length_eq_zero_iff.mp (by omega)
      rw [empty, List.append_nil]
      exact good
    · rw [Nat.max_eq_right new, pass, handedOut]
      have first : r.before = [] := by
        rcases fine with empty | first
        · have grows := @span_length_le _ item _ _ _ within new
          rw [pass, empty, List.append_nil] at grows
          exact List.length_eq_zero_iff.mp (by omega)
        · exact first
      rw [first, List.nil_append]

/-- A pass that opens behind everything read skips what lies between: it may move on only
when nothing does. -/
theorem advance_ahead (within : r.origin ≤ r.reached) (inPass : r.opened ≤ r.cursor)
    (furthest : r.reached = r.cursor ∨ (r.cursor = r.opened ∧ r.reached ≤ r.opened))
    (ahead : r.cursor ≤ position) (none_ : ∀ n, r.cursor ≤ n → n < position → item n = [])
    (good : r.ExactlyOnce item) :
    (r.advance position).ExactlyOnce item ↔ span item r.reached r.opened = [] := by
  have behind : r.reached ≤ r.cursor := by omega
  have now := handed_advance inPass ahead none_
  have expected : span item r.origin (position + 1) =
      span item r.origin r.reached ++ (span item r.reached r.cursor ++ item position) := by
    rw [span_append (Nat.le_trans within (Nat.le_trans behind ahead)) (Nat.le_succ position),
      span_one, span_append within (Nat.le_trans behind ahead), span_append behind ahead,
      span_skip ahead none_, List.append_nil, List.append_assoc]
  have gap : span item r.reached r.cursor = span item r.reached r.opened := by
    rcases furthest with same | ⟨same, -⟩
    · rw [same, span_self]
      exact (by simp [span, Nat.sub_eq_zero_of_le inPass] : span item r.cursor r.opened = []).symm
    · rw [same]
  have furthest' : max r.reached (position + 1) = position + 1 := by omega
  unfold ExactlyOnce
  rw [now]
  simp only [advance]
  rw [furthest', expected, gap]
  constructor
  · intro again
    have counts := again.length_eq
    have lengths := good.length_eq
    simp only [List.length_append] at counts
    exact List.length_eq_zero_iff.mp (by omega)
  · intro empty
    rw [empty, List.nil_append]
    exact good.append_right _

end Advance

end Reader
