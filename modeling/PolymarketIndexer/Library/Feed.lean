import Mathlib.Data.List.Basic

/-! # Feeding a list to a fallible consumer

A consumer drops an item, makes something of it, or fails. Feeding it a list stops at
the first failure. Items that are always dropped can be put in anywhere; items that may
also fail go unnoticed just where the feed ends without them as well.
-/

namespace Feed

variable {α β ε : Type} {f : α → Except ε (Option β)}

/-- What was made of a list, and the failure that stopped it, if any. -/
def feed (f : α → Except ε (Option β)) : List α → List β × Option ε
  | [] => ([], none)
  | x :: xs =>
      match f x with
      | .error e => ([], some e)
      | .ok none => feed f xs
      | .ok (some y) => (y :: (feed f xs).1, (feed f xs).2)

theorem feed_append_done {xs : List α} {ys : List β} (h : feed f xs = (ys, none)) (zs : List α) :
    feed f (xs ++ zs) = (ys ++ (feed f zs).1, (feed f zs).2) := by
  induction xs generalizing ys with
  | nil =>
      obtain ⟨rfl, -⟩ := Prod.mk.inj h
      rfl
  | cons x xs ih =>
      rw [feed] at h
      rw [List.cons_append, feed]
      cases made : f x with
      | error e => simp [made] at h
      | ok kept =>
          cases kept with
          | none =>
              simp only [made] at h
              simp only [ih h]
          | some y =>
              simp only [made, Prod.mk.injEq] at h
              obtain ⟨rfl, rest⟩ := h
              have tail := ih (Prod.ext rfl rest)
              simp only [tail, List.cons_append]

theorem feed_append_failed {xs : List α} {ys : List β} {e : ε} (h : feed f xs = (ys, some e))
    (zs : List α) : feed f (xs ++ zs) = (ys, some e) := by
  induction xs generalizing ys with
  | nil => cases h
  | cons x xs ih =>
      rw [feed] at h
      rw [List.cons_append, feed]
      cases made : f x with
      | error e' =>
          simp only [made] at h
          exact h
      | ok kept =>
          cases kept with
          | none =>
              simp only [made] at h
              exact ih h
          | some y =>
              simp only [made, Prod.mk.injEq] at h
              obtain ⟨rfl, rest⟩ := h
              have tail := ih (Prod.ext rfl rest)
              simp only [tail]

/-- What was made of a list that did not fail. -/
theorem feed_done {xs : List α} {ys : List β} (h : feed f xs = (ys, none)) :
    ys = xs.filterMap (fun x => ((f x).toOption).join) ∧ ∀ x ∈ xs, ∃ made, f x = .ok made := by
  induction xs generalizing ys with
  | nil =>
      obtain ⟨rfl, -⟩ := Prod.mk.inj h
      simp
  | cons x xs ih =>
      rw [feed] at h
      rw [List.filterMap_cons]
      cases made : f x with
      | error e => simp [made] at h
      | ok kept =>
          cases kept with
          | none =>
              simp only [made] at h
              obtain ⟨same, all⟩ := ih h
              exact ⟨same, List.forall_mem_cons.mpr ⟨⟨_, made⟩, all⟩⟩
          | some y =>
              simp only [made, Prod.mk.injEq] at h
              obtain ⟨rfl, rest⟩ := h
              obtain ⟨same, all⟩ := ih (Prod.ext rfl rest)
              exact ⟨congrArg (y :: ·) same, List.forall_mem_cons.mpr ⟨⟨_, made⟩, all⟩⟩

/-- A list that fails has an item that does. -/
theorem feed_failed {xs : List α} {ys : List β} {e : ε} (h : feed f xs = (ys, some e)) :
    ∃ x ∈ xs, f x = .error e := by
  induction xs generalizing ys with
  | nil => cases h
  | cons x xs ih =>
      rw [feed] at h
      cases made : f x with
      | error e' =>
          simp only [made, Prod.mk.injEq, Option.some.injEq] at h
          obtain ⟨-, rfl⟩ := h
          exact ⟨x, List.mem_cons_self, made⟩
      | ok kept =>
          have later : ∃ zs, feed f xs = (zs, some e) := by
            cases kept with
            | none =>
                simp only [made] at h
                exact ⟨ys, h⟩
            | some y =>
                simp only [made, Prod.mk.injEq] at h
                exact ⟨_, Prod.ext rfl h.2⟩
          obtain ⟨zs, tail⟩ := later
          obtain ⟨x', member, failed⟩ := ih tail
          exact ⟨x', List.mem_cons_of_mem _ member, failed⟩

/-- A list with ignorable items put in, anywhere. -/
inductive Padded (ignorable : α → Prop) : List α → List α → Prop where
  | nil : Padded ignorable [] []
  | keep (x : α) {xs ys : List α} (h : Padded ignorable xs ys) :
      Padded ignorable (x :: xs) (x :: ys)
  | insert (x : α) {xs ys : List α} (skip : ignorable x) (h : Padded ignorable xs ys) :
      Padded ignorable xs (x :: ys)

theorem feed_padded {ignorable : α → Prop} (dropped : ∀ x, ignorable x → f x = .ok none)
    {xs ys : List α} (h : Padded ignorable xs ys) : feed f ys = feed f xs := by
  induction h with
  | nil => rfl
  | keep x _ ih => simp only [feed, ih]
  | insert x skip _ ih =>
      rw [feed, dropped x skip]
      exact ih

theorem foldl_padded {γ : Type} {step : γ → α → γ} {ignorable : α → Prop}
    (dropped : ∀ c x, ignorable x → step c x = c) {xs ys : List α} (h : Padded ignorable xs ys)
    (c : γ) : ys.foldl step c = xs.foldl step c := by
  induction h generalizing c with
  | nil => rfl
  | keep x _ ih => exact ih _
  | insert x skip _ ih =>
      rw [List.foldl_cons, dropped c x skip]
      exact ih c

section Unnoticed

variable {extra drops fails : α → Prop} {before xs ys : List α}

/-- Two lists of which the same is made, and which both fail or both do not. -/
def SameFeed (f : α → Except ε (Option β)) (xs ys : List α) : Prop :=
  (feed f ys).1 = (feed f xs).1 ∧ ((feed f ys).2 = none ↔ (feed f xs).2 = none)

/-- The feed has ended at an earlier item, or ends at the next one that it does not drop. -/
def Hidden (drops fails : α → Prop) (before after : List α) : Prop :=
  (∃ x ∈ before, fails x) ∨
    ∃ dropped x rest, after = dropped ++ x :: rest ∧ (∀ d ∈ dropped, drops d) ∧ fails x

/-- A list with extra items put in, each of which is dropped or hidden by the items of the list. The
first list holds the items before. -/
inductive Unnoticed (extra drops fails : α → Prop) : List α → List α → List α → Prop
  | nil {before : List α} : Unnoticed extra drops fails before [] []
  | keep {before : List α} (x : α) {xs ys : List α}
      (h : Unnoticed extra drops fails (before ++ [x]) xs ys) :
      Unnoticed extra drops fails before (x :: xs) (x :: ys)
  | insert {before : List α} (x : α) {xs ys : List α} (isExtra : extra x)
      (fine : drops x ∨ Hidden drops fails before xs)
      (h : Unnoticed extra drops fails before xs ys) :
      Unnoticed extra drops fails before xs (x :: ys)

theorem sameFeed_cons (same : SameFeed f xs ys) (x : α) : SameFeed f (x :: xs) (x :: ys) := by
  obtain ⟨made, failed⟩ := same
  simp only [SameFeed, feed]
  cases f x with
  | error e => simp
  | ok kept =>
      cases kept with
      | none => exact ⟨made, failed⟩
      | some y => exact ⟨congrArg (y :: ·) made, failed⟩

theorem sameFeed_tail {x : α} {kept : Option β} (passes : f x = .ok kept)
    (same : SameFeed f (x :: xs) (x :: ys)) : SameFeed f xs ys := by
  simp only [SameFeed, feed, passes] at same ⊢
  cases kept with
  | none => exact same
  | some y => exact ⟨(List.cons.inj same.1).2, same.2⟩

theorem feed_drops {x : α} (dropped : f x = .ok none) (xs : List α) :
    feed f (x :: xs) = feed f xs := by
  simp only [feed, dropped]

theorem feed_fails {x : α} (failed : ∃ e, f x = .error e) (xs : List α) :
    ∃ e, feed f (x :: xs) = ([], some e) := by
  obtain ⟨e, failed⟩ := failed
  exact ⟨e, by simp only [feed, failed]⟩

theorem sameFeed_failed {e e' : ε} (left : feed f xs = ([], some e))
    (right : feed f ys = ([], some e')) : SameFeed f xs ys := by
  simp [SameFeed, left, right]

/-- Nothing is made of a list that fails, when it only drops items before the one at which it
does. -/
theorem feed_silent_iff : (∃ e, feed f xs = ([], some e)) ↔
    ∃ dropped x rest, xs = dropped ++ x :: rest ∧ (∀ d ∈ dropped, f d = .ok none) ∧
      ∃ e, f x = .error e := by
  induction xs with
  | nil => simp [feed]
  | cons x xs ih =>
      constructor
      · rintro ⟨e, silent⟩
        rw [feed] at silent
        rcases made : f x with e' | ⟨_ | y⟩
        · exact ⟨[], x, xs, rfl, by simp, e', made⟩
        · simp only [made] at silent
          obtain ⟨dropped, last, rest, rfl, all, failed⟩ := ih.mp ⟨e, silent⟩
          exact ⟨x :: dropped, last, rest, rfl, List.forall_mem_cons.mpr ⟨made, all⟩, failed⟩
        · simp [made] at silent
      · rintro ⟨dropped, last, rest, split, all, failed⟩
        cases dropped with
        | nil =>
            obtain ⟨rfl, rfl⟩ := List.cons.inj split
            exact feed_fails failed _
        | cons d dropped =>
            obtain ⟨rfl, rfl⟩ := List.cons.inj split
            obtain ⟨first, all⟩ := List.forall_mem_cons.mp all
            rw [feed_drops first]
            exact ih.mpr ⟨dropped, last, rest, rfl, all, failed⟩

section Laws

variable (drops_iff : ∀ x, drops x ↔ f x = .ok none)
  (fails_iff : ∀ x, fails x ↔ ∃ e, f x = .error e) (idle : ∀ x, extra x → drops x ∨ fails x)

include drops_iff fails_iff idle

theorem silent_padded (padded : Padded extra xs ys) (silent : ∃ e, feed f xs = ([], some e)) :
    ∃ e, feed f ys = ([], some e) := by
  induction padded with
  | nil => exact silent
  | @keep x xs ys h ih =>
      obtain ⟨e, silent⟩ := silent
      rcases made : f x with e' | ⟨_ | y⟩
      · exact feed_fails ⟨e', made⟩ _
      · rw [feed_drops made] at silent ⊢
        exact ih ⟨e, silent⟩
      · simp [feed, made] at silent
  | insert x isExtra h ih =>
      rcases idle x isExtra with dropped | failed
      · rw [feed_drops ((drops_iff x).mp dropped)]
        exact ih silent
      · exact feed_fails ((fails_iff x).mp failed) _

theorem Unnoticed.same (h : Unnoticed extra drops fails before xs ys)
    (goesOn : ∀ x ∈ before, ¬fails x) : SameFeed f xs ys := by
  induction h with
  | nil => exact ⟨rfl, Iff.rfl⟩
  | @keep before x xs ys h ih =>
      by_cases failed : fails x
      · obtain ⟨e, left⟩ := feed_fails ((fails_iff x).mp failed) xs
        obtain ⟨e', right⟩ := feed_fails ((fails_iff x).mp failed) ys
        exact sameFeed_failed left right
      · apply sameFeed_cons (ih fun y member => _) x
        intro y member
        rcases List.mem_append.mp member with earlier | here
        · exact goesOn y earlier
        · rwa [List.mem_singleton.mp here]
  | @insert before x xs ys isExtra fine h ih =>
      by_cases dropped : drops x
      · have tail := ih goesOn
        rw [SameFeed, feed_drops ((drops_iff x).mp dropped)]
        exact tail
      · have failed := (idle x isExtra).resolve_left dropped
        rcases fine.resolve_left dropped with ⟨y, earlier, ended⟩ | ⟨skipped, y, rest, split, all, ends⟩
        · exact absurd ended (goesOn y earlier)
        · obtain ⟨e, left⟩ := feed_silent_iff.mpr ⟨skipped, y, rest, split,
            fun d member => (drops_iff d).mp (all d member), (fails_iff y).mp ends⟩
          obtain ⟨e', right⟩ := feed_fails ((fails_iff x).mp failed) ys
          exact sameFeed_failed left right

theorem Padded.unnoticed (padded : Padded extra xs ys)
    (same : (∃ x ∈ before, fails x) ∨ SameFeed f xs ys) :
    Unnoticed extra drops fails before xs ys := by
  induction padded generalizing before with
  | nil => exact .nil
  | @keep x xs ys h ih =>
      refine .keep x (ih ?_)
      rcases same with ⟨y, earlier, ended⟩ | same
      · exact .inl ⟨y, List.mem_append_left _ earlier, ended⟩
      · cases made : f x with
        | error e =>
            exact .inl ⟨x, List.mem_append_right _ List.mem_cons_self, (fails_iff x).mpr ⟨e, made⟩⟩
        | ok kept => exact .inr (sameFeed_tail made same)
  | @insert x xs ys isExtra h ih =>
      rcases same with ended | same
      · exact .insert x isExtra (.inr (.inl ended)) (ih (.inl ended))
      rcases idle x isExtra with dropped | failed
      · rw [SameFeed, feed_drops ((drops_iff x).mp dropped)] at same
        exact .insert x isExtra (.inl dropped) (ih (.inr same))
      · -- the feed ends here, so it has to make nothing of the list and end there as well
        obtain ⟨e, right⟩ := feed_fails ((fails_iff x).mp failed) ys
        rw [SameFeed, right] at same
        obtain ⟨nothing, ended⟩ := same
        have silent : ∃ e, feed f xs = ([], some e) := by
          cases last : (feed f xs).2 with
          | none => cases ended.mpr last
          | some e' => exact ⟨e', Prod.ext nothing.symm last⟩
        obtain ⟨skipped, y, rest, split, all, ends⟩ := feed_silent_iff.mp silent
        obtain ⟨e', left⟩ := silent
        obtain ⟨e'', tail⟩ := silent_padded drops_iff fails_iff idle h ⟨e', left⟩
        exact .insert x isExtra (.inr (.inr ⟨skipped, y, rest, split,
          fun d member => (drops_iff d).mpr (all d member), (fails_iff y).mpr ends⟩))
          (ih (.inr (sameFeed_failed left tail)))

/-- Extra items change what is made of a list, or whether it fails, unless they go unnoticed. -/
theorem sameFeed_iff (padded : Padded extra xs ys) :
    SameFeed f xs ys ↔ Unnoticed extra drops fails [] xs ys :=
  ⟨fun same => padded.unnoticed drops_iff fails_iff idle (.inr same),
    fun h => h.same drops_iff fails_iff idle (by simp)⟩

end Laws

end Unnoticed

end Feed
