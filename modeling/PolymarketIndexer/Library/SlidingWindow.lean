import Mathlib.Data.List.Basic
import Mathlib.Order.Lattice

/-! # Sliding windows

A queue of times that grows at its end and is pruned at its front. As long as the times come
in order, pruning at the front leaves exactly the times from the cutoff on, whatever was
pruned before.
-/

namespace SlidingWindow

variable {α : Type*} [LinearOrder α] {cutoff cutoff' t : α} {times : List α}

def since (cutoff : α) (times : List α) : List α := times.filter (fun t => cutoff ≤ t)

def prune (cutoff : α) (times : List α) : List α := times.dropWhile (fun t => t < cutoff)

/-- In order the stale times are at the front. -/
theorem prune_sorted (sorted : times.Pairwise (· ≤ ·)) : prune cutoff times = since cutoff times := by
  induction times with
  | nil => rfl
  | cons t times ih =>
      obtain ⟨first, sorted⟩ := List.pairwise_cons.mp sorted
      by_cases stale : t < cutoff
      · simp only [prune, since, List.dropWhile_cons, List.filter_cons, stale, not_le.mpr stale,
          decide_true, decide_false, if_true, Bool.false_eq_true, if_false]
        exact ih sorted
      · have fresh : ∀ other ∈ t :: times, cutoff ≤ other := by
          intro other member
          rcases List.mem_cons.mp member with rfl | later
          · exact not_lt.mp stale
          · exact (not_lt.mp stale).trans (first other later)
        rw [since, List.filter_eq_self.mpr (fun other member => decide_eq_true (fresh other member))]
        exact List.dropWhile_cons_of_neg (by simpa using stale)

theorem since_since (le : cutoff ≤ cutoff') :
    since cutoff' (since cutoff times) = since cutoff' times := by
  rw [since, since, since, List.filter_filter]
  refine List.filter_congr (fun t _ => ?_)
  by_cases fresh : cutoff' ≤ t
  · simp [fresh, le.trans fresh]
  · simp [fresh]

/-- Pruning again, later, is pruning once. -/
theorem prune_since (sorted : times.Pairwise (· ≤ ·)) (le : cutoff ≤ cutoff') :
    prune cutoff' (since cutoff times) = since cutoff' times := by
  have kept : (since cutoff times).Sublist times := List.filter_sublist
  rw [prune_sorted (sorted.sublist kept), since_since le]

theorem prune_push (sorted : (times ++ [t]).Pairwise (· ≤ ·)) (le : cutoff ≤ cutoff') :
    prune cutoff' (since cutoff times ++ [t]) = since cutoff' (times ++ [t]) := by
  have kept : (since cutoff times ++ [t]).Sublist (times ++ [t]) :=
    List.filter_sublist.append_right [t]
  rw [prune_sorted (sorted.sublist kept)]
  have again := @since_since _ _ _ _ times le
  simp only [since, List.filter_append] at again ⊢
  rw [again]

end SlidingWindow
