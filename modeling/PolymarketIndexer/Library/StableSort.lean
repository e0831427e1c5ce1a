import Mathlib.Data.List.Sort

/-! # Stable sorting of a list cut into separated blocks

Insertion sort is stable, so sorting a list whose elements fall into two classes,
every element of the first strictly below every element of the second, is the
same as sorting the two classes apart and joining the results. Iterating this
over an ordered family of classes turns one global sort into per-class sorts.
-/

namespace StableSort

variable {α : Type*} (r : α → α → Prop) [DecidableRel r]

/-- Every element of `low` goes strictly before every element of `high`. -/
def Below (low high : α → Bool) : Prop :=
  ∀ a b, low a = true → high b = true → r a b ∧ ¬ r b a

theorem orderedInsert_append_left {a : α} {xs ys : List α} (h : ∀ b ∈ ys, r a b) :
    (xs ++ ys).orderedInsert r a = xs.orderedInsert r a ++ ys := by
  induction xs with
  | nil =>
      cases ys with
      | nil => rfl
      | cons b ys => simp [List.orderedInsert, h b List.mem_cons_self]
  | cons x xs ih =>
      simp only [List.cons_append, List.orderedInsert]
      split
      · rfl
      · rw [ih, List.cons_append]

theorem orderedInsert_append_right {a : α} {xs ys : List α} (h : ∀ b ∈ xs, ¬ r a b) :
    (xs ++ ys).orderedInsert r a = xs ++ ys.orderedInsert r a := by
  induction xs with
  | nil => rfl
  | cons x xs ih =>
      simp only [List.cons_append, List.orderedInsert, h x List.mem_cons_self, if_false]
      rw [ih (fun b member => h b (List.mem_cons_of_mem _ member))]

/-- Sorting commutes with cutting the list into a lower and a higher class. -/
theorem insertionSort_split {p : α → Bool} {xs : List α}
    (apart : ∀ a ∈ xs, ∀ b ∈ xs, p a = true → p b = false → r a b ∧ ¬ r b a) :
    xs.insertionSort r =
      (xs.filter p).insertionSort r ++ (xs.filter (fun a => !p a)).insertionSort r := by
  induction xs with
  | nil => rfl
  | cons a xs ih =>
      have tail := ih (fun x hx y hy =>
        apart x (List.mem_cons_of_mem _ hx) y (List.mem_cons_of_mem _ hy))
      rw [List.insertionSort_cons, tail]
      cases inClass : p a with
      | true =>
          have bound : ∀ b ∈ (xs.filter (fun a => !p a)).insertionSort r, r a b := by
            intro b member
            obtain ⟨inxs, out⟩ := List.mem_filter.mp ((List.mem_insertionSort r).mp member)
            exact (apart a List.mem_cons_self b (List.mem_cons_of_mem _ inxs) inClass
              (by simpa using out)).1
          rw [orderedInsert_append_left r bound]
          simp [inClass]
      | false =>
          have bound : ∀ b ∈ (xs.filter p).insertionSort r, ¬ r a b := by
            intro b member
            obtain ⟨inxs, inb⟩ := List.mem_filter.mp ((List.mem_insertionSort r).mp member)
            exact (apart b (List.mem_cons_of_mem _ inxs) a List.mem_cons_self inb inClass).2
          rw [orderedInsert_append_right r bound]
          simp [inClass]

def Layered {κ : Type*} (inClass : κ → α → Bool) (ks : List κ) : Prop :=
  ks.Pairwise (fun k k' => Below r (inClass k) (inClass k'))

/-- Sorting a list that lies in an ordered family of classes, class by class. -/
theorem insertionSort_flatMap {κ : Type*} {inClass : κ → α → Bool} {ks : List κ}
    (layered : Layered r inClass ks) {xs : List α}
    (covered : ∀ a ∈ xs, ∃ k ∈ ks, inClass k a = true) :
    xs.insertionSort r = ks.flatMap (fun k => (xs.filter (inClass k)).insertionSort r) := by
  induction ks generalizing xs with
  | nil =>
      have : xs = [] := List.eq_nil_iff_forall_not_mem.mpr (fun a member => by
        obtain ⟨_, impossible, _⟩ := covered a member
        cases impossible)
      subst this
      rfl
  | cons k ks ih =>
      obtain ⟨lowest, rest⟩ := List.pairwise_cons.mp layered
      -- only the elements of `xs` are compared, so the cut is taken inside `xs`
      have apart : ∀ a ∈ xs, ∀ b ∈ xs, inClass k a = true → inClass k b = false →
          r a b ∧ ¬ r b a := by
        intro a _ b hb ina outb
        obtain ⟨k', member, inb⟩ := covered b hb
        rcases List.mem_cons.mp member with rfl | member
        · simp [outb] at inb
        · exact lowest k' member a b ina inb
      have cut := insertionSort_split r apart
      have higher : ∀ a ∈ xs.filter (fun a => !inClass k a), ∃ k' ∈ ks, inClass k' a = true := by
        intro a member
        obtain ⟨inxs, outk⟩ := List.mem_filter.mp member
        obtain ⟨k', member, ina⟩ := covered a inxs
        rcases List.mem_cons.mp member with rfl | member
        · simp [ina] at outk
        · exact ⟨k', member, ina⟩
      rw [cut, List.flatMap_cons, ih rest higher]
      congr 1
      apply List.flatMap_congr
      intro k' member
      congr 1
      rw [List.filter_filter]
      apply List.filter_congr
      intro a _
      cases inA : inClass k' a with
      | false => rfl
      | true =>
          cases ink : inClass k a with
          | false => rfl
          | true =>
              have := lowest k' member a a ink inA
              exact absurd this.1 this.2

end StableSort
