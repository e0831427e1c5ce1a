import Mathlib.Data.List.Basic
import Mathlib.Data.List.Count
import Mathlib.Data.List.Induction

/-! # Cutting a sequence into windows

The first item of a sequence opens a window, and every item that is cut opens the next
one. A window is over from a position on that its opener's position fixes. When exactly
those items are cut that find their window over, non-decreasing positions make the
windows narrow, few, and never split between items of one position.
-/

namespace Windows

variable {α : Type*} (position : α → Nat) (cut : α → Bool) (ends : Nat → Nat)

/-- The position of the item that opened the current window. -/
def opener (items : List α) : Option Nat :=
  items.foldl (fun current item =>
    if current.isNone || cut item then some (position item) else current) none

/-- An item is cut exactly when the window it finds is over. -/
def Exact (items : List α) : Prop :=
  ∀ past item rest, items = past ++ item :: rest →
    (cut item = true ↔ ∃ o, opener position cut past = some o ∧ ends o ≤ position item)

variable {position cut ends}

@[simp] theorem opener_nil : opener position cut [] = none := rfl

theorem opener_snoc (items : List α) (item : α) :
    opener position cut (items ++ [item]) =
      if (opener position cut items).isNone || cut item then some (position item)
      else opener position cut items := by
  rw [opener, List.foldl_append]
  rfl

theorem opener_none {items : List α} : opener position cut items = none ↔ items = [] := by
  induction items using List.reverseRecOn with
  | nil => simp
  | append_singleton items item ih =>
      rw [opener_snoc]
      cases opened : opener position cut items with
      | none => simp
      | some o => cases cut item <;> simp

theorem opener_uncut {items : List α} {item : α} {o : Nat} (opened : opener position cut items = some o)
    (uncut : cut item = false) : opener position cut (items ++ [item]) = some o := by
  rw [opener_snoc, opened, uncut]
  rfl

theorem exact_nil : Exact position cut ends [] := by
  intro past item rest split
  simp at split

theorem exact_snoc {items : List α} {item : α} :
    Exact position cut ends (items ++ [item]) ↔ Exact position cut ends items ∧
      (cut item = true ↔ ∃ o, opener position cut items = some o ∧ ends o ≤ position item) := by
  constructor
  · intro exact_
    refine ⟨?_, exact_ items item [] rfl⟩
    intro past a rest split
    exact exact_ past a (rest ++ [item]) (by rw [split, List.append_assoc, List.cons_append])
  · rintro ⟨exact_, last⟩ past a rest split
    rcases rest.eq_nil_or_concat' with rfl | ⟨rest, b, rfl⟩
    · obtain ⟨rfl, same⟩ := List.append_inj' split rfl
      obtain ⟨rfl, -⟩ := List.cons.inj same
      exact last
    · rw [← List.cons_append, ← List.append_assoc] at split
      exact exact_ past a rest (List.append_inj' split rfl).1

theorem Exact.start {past rest : List α} (h : Exact position cut ends (past ++ rest)) :
    Exact position cut ends past := by
  intro earlier item later split
  exact h earlier item (later ++ rest) (by rw [split, List.append_assoc, List.cons_append])

/-- While the window of an opener is not ends, nothing is cut. -/
theorem uncut_below {past items : List α} {o : Nat}
    (exact_ : Exact position cut ends (past ++ items)) (opened : opener position cut past = some o)
    (below : ∀ item ∈ items, position item < ends o) :
    (∀ item ∈ items, cut item = false) ∧ opener position cut (past ++ items) = some o := by
  induction items using List.reverseRecOn with
  | nil => exact ⟨nofun, by rw [List.append_nil, opened]⟩
  | append_singleton items item ih =>
      rw [← List.append_assoc] at exact_ ⊢
      obtain ⟨earlier, last⟩ := exact_snoc.mp exact_
      obtain ⟨uncut, same⟩ := ih earlier (fun a member => below a (List.mem_append_left _ member))
      have here : cut item = false := by
        cases is : cut item with
        | false => rfl
        | true =>
            obtain ⟨o', opened', reached⟩ := last.mp is
            obtain rfl := Option.some.inj (same.symm.trans opened')
            have := below item (List.mem_append_right _ List.mem_cons_self)
            omega
      refine ⟨?_, opener_uncut same here⟩
      intro a member
      rcases List.mem_append.mp member with before | last
      · exact uncut a before
      · rw [List.mem_singleton.mp last]
        exact here

section Ascending

variable {width : Nat} {items : List α}

/-- After an item its window is open. -/
theorem opener_after {past : List α} {item : α} (wide : position item < ends (position item))
    (exact_ : Exact position cut ends (past ++ [item])) :
    ∃ o, opener position cut (past ++ [item]) = some o ∧ position item < ends o := by
  obtain ⟨-, last⟩ := exact_snoc.mp exact_
  rw [opener_snoc]
  cases opened : opener position cut past with
  | none => exact ⟨position item, rfl, wide⟩
  | some o =>
      cases is : cut item with
      | true => exact ⟨position item, rfl, wide⟩
      | false =>
          refine ⟨o, rfl, Nat.lt_of_not_le fun reached => ?_⟩
          have cut_ := last.mpr ⟨o, opened, reached⟩
          rw [is] at cut_
          cases cut_

theorem opener_le (ascending : items.Pairwise (fun a b => position a ≤ position b)) {o : Nat}
    (opened : opener position cut items = some o) {item : α} (last : items.getLast? = some item) :
    o ≤ position item := by
  induction items using List.reverseRecOn generalizing item with
  | nil => cases last
  | append_singleton items a ih =>
      rw [List.getLast?_concat] at last
      obtain rfl := Option.some.inj last
      rw [opener_snoc] at opened
      split at opened
      · exact Nat.le_of_eq (Option.some.inj opened).symm
      · obtain ⟨before, -, upper⟩ := List.pairwise_append.mp ascending
        cases previous : items.getLast? with
        | none =>
            rw [List.getLast?_eq_none_iff.mp previous] at opened
            cases opened
        | some b =>
            have := ih before opened previous
            have := upper b (List.mem_of_getLast? previous) a List.mem_cons_self
            omega

/-- Items of one position are in one window. -/
theorem one_window {past mid rest : List α} {a b : α} (wide : position a < ends (position a))
    (exact_ : Exact position cut ends (past ++ a :: (mid ++ b :: rest)))
    (ascending : (past ++ a :: (mid ++ b :: rest)).Pairwise (fun a b => position a ≤ position b))
    (same : position a = position b) : ∀ item ∈ mid ++ [b], cut item = false := by
  have split : past ++ a :: (mid ++ b :: rest) = (past ++ [a]) ++ (mid ++ [b]) ++ rest := by simp
  rw [split] at exact_ ascending
  obtain ⟨o, opened, open_⟩ := opener_after wide exact_.start.start
  apply (uncut_below exact_.start opened _).1
  intro item member
  have upTo := (List.pairwise_append.mp (List.pairwise_append.mp ascending).1).2.1
  have bound : position item ≤ position b := by
    rcases List.mem_append.mp member with inMid | last
    · exact (List.pairwise_append.mp upTo).2.2 item inMid b List.mem_cons_self
    · exact Nat.le_of_eq (by rw [List.mem_singleton.mp last])
  omega

/-- The items of one window are less than its width apart. -/
theorem span_lt {past mid rest : List α} {a b : α} (wide : position a < ends (position a))
    (narrow : ∀ o, ends o ≤ o + width)
    (exact_ : Exact position cut ends (past ++ a :: (mid ++ b :: rest)))
    (ascending : (past ++ a :: (mid ++ b :: rest)).Pairwise (fun a b => position a ≤ position b))
    (uncut : ∀ item ∈ mid ++ [b], cut item = false) : position b < position a + width := by
  have split : past ++ a :: (mid ++ b :: rest) = (past ++ [a]) ++ mid ++ [b] ++ rest := by simp
  rw [split] at exact_ ascending
  obtain ⟨o, opened, -⟩ := opener_after wide exact_.start.start.start
  have kept : opener position cut (past ++ [a] ++ mid) = some o := by
    clear split exact_ ascending
    induction mid using List.reverseRecOn with
    | nil => rw [List.append_nil, opened]
    | append_singleton mid item ih =>
        rw [← List.append_assoc]
        apply opener_uncut
        · apply ih
          intro c member
          apply uncut c
          rcases List.mem_append.mp member with inMid | last
          · simp [inMid]
          · simp [List.mem_singleton.mp last]
        · apply uncut item
          simp
  have low : o ≤ position a := by
    have upTo := (List.pairwise_append.mp
      (List.pairwise_append.mp (List.pairwise_append.mp ascending).1).1).1
    exact opener_le upTo opened (by simp)
  have here := (exact_snoc.mp exact_.start).2
  have still : ¬ends o ≤ position b := by
    intro reached
    have is := here.mpr ⟨o, kept, reached⟩
    rw [uncut b (List.mem_append_right _ List.mem_cons_self)] at is
    cases is
  have := narrow o
  omega

/-- Each cut lies a width or more after the last opener. -/
theorem count_mul_le (reach : ∀ o, ∀ item ∈ items, ends o ≤ position item →
      o + width ≤ position item) (exact_ : Exact position cut ends items) {first : α}
    (starts : items.head? = some first) {o : Nat} (opened : opener position cut items = some o) :
    items.countP cut * width + position first ≤ o := by
  induction items using List.reverseRecOn generalizing o with
  | nil => cases starts
  | append_singleton items item ih =>
      obtain ⟨earlier, last⟩ := exact_snoc.mp exact_
      rw [opener_snoc] at opened
      rw [List.countP_append, List.countP_singleton]
      cases before : opener position cut items with
      | none =>
          obtain rfl := opener_none.mp before
          obtain rfl : item = first := Option.some.inj starts
          have uncut : ¬cut item = true := by
            rintro is
            obtain ⟨_, impossible, -⟩ := last.mp is
            cases impossible
          rw [opener_nil, Option.isNone_none, Bool.true_or, if_pos rfl] at opened
          rw [if_neg uncut, ← Option.some.inj opened]
          simp
      | some o' =>
          have starts' : items.head? = some first := by
            cases items with
            | nil => cases before
            | cons b items => exact starts
          have earlierCuts := ih (fun o c member => reach o c (List.mem_append_left _ member))
            earlier starts' before
          rw [before, Option.isNone_some, Bool.false_or] at opened
          by_cases is : cut item = true
          · obtain ⟨_, opened', reached⟩ := last.mp is
            obtain rfl := Option.some.inj (before.symm.trans opened')
            rw [if_pos is] at opened ⊢
            obtain rfl := Option.some.inj opened
            have far := reach o' item (List.mem_append_right _ List.mem_cons_self) reached
            rw [Nat.add_mul, Nat.one_mul]
            omega
          · rw [if_neg is] at opened ⊢
            obtain rfl := Option.some.inj opened
            exact earlierCuts

end Ascending

end Windows
