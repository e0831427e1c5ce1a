import Mathlib.Data.List.AList
import Mathlib.Algebra.GroupWithZero.Nat

/-! # Maps iterated in an unknown order

A hash map is a finite map whose iteration order is up to the environment: an
`Order` is any rearrangement. What is proved about iterating such a map must hold
for every order.
-/

namespace Unordered

variable {κ α : Type} [DecidableEq κ]

abbrev Map (κ α : Type) := AList (fun _ : κ => α)

structure Order (ε : Type) where
  arrange : List ε → List ε
  perm : ∀ entries, (arrange entries).Perm entries

def Order.asStored (ε : Type) : Order ε := ⟨id, fun _ => .rfl⟩

def Order.reversed (ε : Type) : Order ε := ⟨List.reverse, List.reverse_perm⟩

/-- The entries of a map in an iteration order. -/
def iterate (order : Order ((_ : κ) × α)) (map : Map κ α) : List ((_ : κ) × α) :=
  order.arrange map.entries

theorem mem_iterate {order : Order ((_ : κ) × α)} {map : Map κ α} {k : κ} {a : α} :
    ⟨k, a⟩ ∈ iterate order map ↔ map.lookup k = some a := by
  rw [iterate, (order.perm map.entries).mem_iff]
  exact AList.mem_lookup_iff.symm

omit [DecidableEq κ] in
theorem iterate_keys_nodup (order : Order ((_ : κ) × α)) (map : Map κ α) :
    ((iterate order map).map Sigma.fst).Nodup :=
  ((order.perm map.entries).map Sigma.fst).nodup_iff.mpr map.keys_nodup

/-- Of the entries of a map, those with one key are the one binding it has, if any. -/
theorem iterate_filter (order : Order ((_ : κ) × α)) (map : Map κ α) (k : κ) :
    (iterate order map).filter (fun entry => entry.1 = k) =
      ((map.lookup k).map (Sigma.mk k)).toList := by
  have nodup := iterate_keys_nodup order map
  have found : ∀ a, ⟨k, a⟩ ∈ iterate order map ↔ map.lookup k = some a :=
    fun a => mem_iterate
  generalize iterate order map = entries at nodup found
  generalize map.lookup k = bound at found
  induction entries generalizing bound with
  | nil =>
      cases bound with
      | none => rfl
      | some a => cases (found a).mpr rfl
  | cons entry entries ih =>
      obtain ⟨fresh, nodup⟩ := List.nodup_cons.mp nodup
      by_cases here : entry.1 = k
      · obtain ⟨k', a⟩ := entry
        obtain rfl : k' = k := here
        have absent : entries.filter (fun entry => entry.1 = k') = [] := by
          apply List.filter_eq_nil_iff.mpr
          intro entry member same
          exact fresh (by simpa using ⟨entry.2, (of_decide_eq_true same) ▸ member⟩)
        obtain rfl := (found a).mp List.mem_cons_self
        simp [absent]
      · have rest : entries.filter (fun entry => entry.1 = k) =
            (bound.map (Sigma.mk k)).toList := by
          apply ih nodup
          intro a
          rw [← found a, List.mem_cons]
          constructor
          · exact .inr
          · rintro (rfl | member)
            · exact absurd rfl here
            · exact member
        simp [here, rest]

/-- Writing the entries of a map into another one, each through `f`. -/
theorem lookup_foldl_insert {β : Type} (f : α → β) (map : Map κ α) (target : Map κ β) (k : κ) :
    (map.entries.foldl (fun target entry => target.insert entry.1 (f entry.2)) target).lookup k =
      ((map.lookup k).map f).or (target.lookup k) := by
  suffices general : ∀ (entries : List ((_ : κ) × α)) (target : Map κ β), entries.NodupKeys →
      (entries.foldl (fun target entry => target.insert entry.1 (f entry.2)) target).lookup k =
        ((List.dlookup k entries).map f).or (target.lookup k) from
    general map.entries target map.nodupKeys
  intro entries
  induction entries with
  | nil =>
      intro target _
      rfl
  | cons entry entries ih =>
      intro target nodup
      obtain ⟨k', a⟩ := entry
      obtain ⟨fresh, nodup⟩ := List.nodupKeys_cons.mp nodup
      rw [List.foldl_cons, ih _ nodup]
      by_cases here : k = k'
      · obtain rfl := here
        rw [List.dlookup_cons_eq, List.dlookup_eq_none.mpr fresh, AList.lookup_insert]
        rfl
      · rw [List.dlookup_cons_ne _ _ here, AList.lookup_insert_ne here]

section Total

def total (map : Map κ Nat) : Nat := (map.entries.map Sigma.snd).sum

omit [DecidableEq κ] in
@[simp] theorem total_empty : total (∅ : Map κ Nat) = 0 := rfl

theorem sum_kerase (entries : List ((_ : κ) × Nat)) (k : κ) :
    ((entries.kerase k).map Sigma.snd).sum + (List.dlookup k entries).getD 0 =
      (entries.map Sigma.snd).sum := by
  induction entries with
  | nil => rfl
  | cons entry entries ih =>
      by_cases here : k = entry.1
      · obtain ⟨k', n⟩ := entry
        obtain rfl : k = k' := here
        rw [@List.kerase_cons_eq _ _ _ k ⟨k, n⟩ entries rfl, List.dlookup_cons_eq]
        exact Nat.add_comm _ _
      · rw [List.kerase_cons_ne here, List.dlookup_cons_ne _ _ here, List.map_cons, List.sum_cons,
          List.map_cons, List.sum_cons]
        omega

/-- Binding a key replaces its number in the total. -/
theorem total_insert (map : Map κ Nat) (k : κ) (n : Nat) :
    total (map.insert k n) + (map.lookup k).getD 0 = total map + n := by
  have rest := sum_kerase map.entries k
  rw [total, AList.entries_insert, List.map_cons, List.sum_cons, AList.lookup, total]
  simp only
  omega

end Total

section Grouping

variable {η ε : Type}

/-- Push an item under a key; a key met for the first time takes the given head. -/
def push (groups : Map κ (η × List ε)) (k : κ) (head : η) (item : ε) : Map κ (η × List ε) :=
  match groups.lookup k with
  | none => groups.insert k (head, [item])
  | some group => groups.insert k (group.1, group.2 ++ [item])

theorem lookup_push (groups : Map κ (η × List ε)) (k : κ) (head : η) (item : ε) (k' : κ) :
    (push groups k head item).lookup k' =
      if k' = k then
        some (((groups.lookup k).map Prod.fst).getD head,
          ((groups.lookup k).map Prod.snd).getD [] ++ [item])
      else groups.lookup k' := by
  unfold push
  split
  · rename_i absent
    split
    · rename_i same
      subst same
      rw [AList.lookup_insert, absent]
      rfl
    · rename_i other
      exact AList.lookup_insert_ne other
  · rename_i group found
    split
    · rename_i same
      subst same
      rw [AList.lookup_insert, found]
      rfl
    · rename_i other
      exact AList.lookup_insert_ne other

/-- Grouping a list: a key's group has the head of its first entry and all its items in order. -/
theorem lookup_foldl_push (entries : List (κ × η × ε)) (groups : Map κ (η × List ε)) (k : κ) :
    (entries.foldl (fun groups entry => push groups entry.1 entry.2.1 entry.2.2) groups).lookup k =
      match groups.lookup k, entries.filter (fun entry => entry.1 = k) with
      | none, [] => none
      | none, entry :: own => some (entry.2.1, (entry :: own).map (fun entry => entry.2.2))
      | some group, own => some (group.1, group.2 ++ own.map (fun entry => entry.2.2)) := by
  induction entries generalizing groups with
  | nil => cases h : groups.lookup k <;> simp [h]
  | cons entry entries ih =>
      rw [List.foldl_cons, ih, lookup_push]
      by_cases here : k = entry.1
      · rw [if_pos here, List.filter_cons, if_pos (decide_eq_true here.symm), ← here]
        cases h : groups.lookup k <;> simp
      · rw [if_neg here, List.filter_cons, if_neg (by simpa using Ne.symm here)]

end Grouping

end Unordered
