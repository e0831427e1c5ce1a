import Mathlib.Data.List.Flatten
import Mathlib.Data.List.Nodup
import Mathlib.Data.List.Perm.Basic

/-! # Bundles stored under keys, the last one winning

Storing a bundle of items under a key replaces what the key held. What survives of
a history of stores is the last bundle of each key; nothing is lost exactly when no
key was used twice.
-/

namespace LastWins

variable {ω κ α : Type*} [DecidableEq κ] (key : ω → κ) (items : ω → List α)

/-- What a key holds after the stores. -/
def held (stores : List ω) (k : κ) : Option ω := (stores.filter (fun w => key w = k)).getLast?

variable {key} in
/-- A key that was only ever given one bundle holds it. -/
theorem held_of_unique {ws : List ω} {w : ω} (member : w ∈ ws)
    (unique : ∀ v ∈ ws, key v = key w → v = w) : held key ws (key w) = some w := by
  have inFilter : w ∈ ws.filter (fun v => key v = key w) :=
    List.mem_filter.mpr ⟨member, decide_eq_true rfl⟩
  rw [held, List.getLast?_eq_some_getLast (List.ne_nil_of_mem inFilter)]
  obtain ⟨inList, same⟩ := List.mem_filter.mp (List.getLast_mem (List.ne_nil_of_mem inFilter))
  rw [unique _ inList (of_decide_eq_true same)]

variable {key} in
theorem held_none {ws : List ω} {k : κ} (unused : ∀ w ∈ ws, key w ≠ k) :
    held key ws k = none := by
  have empty : ws.filter (fun w => key w = k) = [] :=
    List.filter_eq_nil_iff.mpr (fun w member same => unused w member (of_decide_eq_true same))
  rw [held, empty]
  rfl

/-- The stores no later one replaces. -/
def kept : List ω → List ω
  | [] => []
  | w :: ws => if key w ∈ ws.map key then kept ws else w :: kept ws

theorem kept_sublist (ws : List ω) : (kept key ws).Sublist ws := by
  induction ws with
  | nil => exact .refl _
  | cons w ws ih =>
      rw [kept]
      split
      · exact ih.cons w
      · exact ih.cons_cons w

theorem mem_kept_keys {ws : List ω} {k : κ} : k ∈ (kept key ws).map key ↔ k ∈ ws.map key := by
  induction ws with
  | nil => rfl
  | cons w ws ih =>
      rw [kept]
      split
      · rename_i again
        rw [ih, List.map_cons, List.mem_cons]
        constructor
        · exact .inr
        · rintro (rfl | member)
          · exact again
          · exact member
      · simp only [List.map_cons, List.mem_cons, ih]

theorem kept_nodup (ws : List ω) : ((kept key ws).map key).Nodup := by
  induction ws with
  | nil => exact List.nodup_nil
  | cons w ws ih =>
      rw [kept]
      split
      · exact ih
      · rename_i once
        rw [List.map_cons]
        exact List.nodup_cons.mpr ⟨fun member => once ((mem_kept_keys key).mp member), ih⟩

theorem held_of_kept {ws : List ω} {w : ω} (h : w ∈ kept key ws) :
    held key ws (key w) = some w := by
  induction ws with
  | nil => cases h
  | cons v ws ih =>
      rw [kept] at h
      have later : w ∈ kept key ws → held key (v :: ws) (key w) = some w := by
        intro member
        have tail := ih member
        unfold held at tail ⊢
        rw [List.filter_cons]
        split
        · rw [List.getLast?_cons, tail]
          rfl
        · exact tail
      split at h
      · exact later h
      · rename_i once
        rcases List.mem_cons.mp h with rfl | member
        · have alone : ws.filter (fun u => key u = key w) = [] := by
            apply List.filter_eq_nil_iff.mpr
            intro u member same
            exact once (List.mem_map.mpr ⟨u, member, of_decide_eq_true same⟩)
          simp [held, alone]
        · exact later member

theorem kept_eq_iff {ws : List ω} : kept key ws = ws ↔ (ws.map key).Nodup := by
  constructor
  · intro same
    rw [← same]
    exact kept_nodup key ws
  · intro nodup
    induction ws with
    | nil => rfl
    | cons w ws ih =>
        obtain ⟨fresh, rest⟩ := List.nodup_cons.mp nodup
        rw [kept, if_neg fresh, ih rest]

variable {items}

theorem eq_of_sublist_of_length {ws vs : List ω} (sub : vs.Sublist ws)
    (filled : ∀ w ∈ ws, items w ≠ [])
    (length : (vs.flatMap items).length = (ws.flatMap items).length) : vs = ws := by
  induction sub with
  | slnil => rfl
  | cons w sub ih =>
      rename_i vs ws
      have shorter : (vs.flatMap items).length ≤ (ws.flatMap items).length :=
        (sub.flatMap items).length_le
      have := List.length_pos_of_ne_nil (filled w List.mem_cons_self)
      simp only [List.flatMap_cons, List.length_append] at length
      omega
  | cons_cons w sub ih =>
      simp only [List.flatMap_cons, List.length_append, Nat.add_left_cancel_iff] at length
      rw [ih (fun u member => filled u (List.mem_cons_of_mem _ member)) length]

/-- Reading the keys one after another gives every stored item exactly once if and only
if no key was stored to twice. -/
theorem perm_iff_nodup {ws : List ω} (filled : ∀ w ∈ ws, items w ≠ []) {keys : List κ}
    (nodup : keys.Nodup) (all : ∀ k, k ∈ keys ↔ k ∈ ws.map key) :
    (keys.flatMap (fun k => ((held key ws k).map items).getD [])).Perm (ws.flatMap items) ↔
      (ws.map key).Nodup := by
  have sameKeys : keys.Perm ((kept key ws).map key) := by
    rw [List.perm_ext_iff_of_nodup nodup (kept_nodup key ws)]
    intro k
    rw [all, mem_kept_keys]
  have read : ((kept key ws).map key).flatMap (fun k => ((held key ws k).map items).getD []) =
      (kept key ws).flatMap items := by
    rw [List.flatMap_map]
    apply List.flatMap_congr
    intro w member
    rw [held_of_kept key member]
    rfl
  have survives : (keys.flatMap (fun k => ((held key ws k).map items).getD [])).Perm
      ((kept key ws).flatMap items) := by
    rw [← read]
    exact sameKeys.flatMap_right _
  rw [← kept_eq_iff]
  constructor
  · intro perm
    exact eq_of_sublist_of_length (kept_sublist key ws) filled
      ((survives.symm.trans perm).length_eq)
  · intro same
    rw [same] at survives
    exact survives

end LastWins
