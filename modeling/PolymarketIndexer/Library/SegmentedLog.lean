import Mathlib.Data.List.DropRight

/-! # An append-only log kept in segments

Items are appended to the open segment, opening one when there is none. Cutting the
log puts the open segment behind the finished ones. Reading the segments one after
another gives back exactly what was appended, in order.
-/

structure SegmentedLog (α : Type*) where
  finished : List (List α)
  current : Option (List α)

namespace SegmentedLog

variable {α : Type*}

def empty : SegmentedLog α := ⟨[], none⟩

def append (log : SegmentedLog α) (item : α) : SegmentedLog α :=
  { log with current := some (log.current.getD [] ++ [item]) }

def cut (log : SegmentedLog α) : SegmentedLog α :=
  ⟨log.finished ++ log.current.toList, none⟩

def contents (log : SegmentedLog α) : List α := log.finished.flatten ++ log.current.getD []

/-- What happens to a log: an item arrives or the log is finished. -/
inductive Op (α : Type*) where
  | item (a : α)
  | cut

def apply (log : SegmentedLog α) : Op α → SegmentedLog α
  | .item a => log.append a
  | .cut => log.cut

def items (ops : List (Op α)) : List α :=
  ops.filterMap (fun op => match op with
    | .item a => some a
    | .cut => none)

@[simp] theorem contents_empty : (empty : SegmentedLog α).contents = [] := rfl

@[simp] theorem contents_append (log : SegmentedLog α) (item : α) :
    (log.append item).contents = log.contents ++ [item] := by
  simp only [contents, append, Option.getD_some, List.append_assoc]

@[simp] theorem contents_cut (log : SegmentedLog α) : log.cut.contents = log.contents := by
  cases h : log.current <;> simp [contents, cut, h]

theorem contents_run (log : SegmentedLog α) (ops : List (Op α)) :
    (ops.foldl apply log).contents = log.contents ++ items ops := by
  induction ops generalizing log with
  | nil => simp [items]
  | cons op ops ih =>
      rw [List.foldl_cons, ih]
      cases op with
      | item a => simp [apply, items]
      | cut => simp [apply, items]

def Op.isItem : Op α → Bool
  | .item _ => true
  | .cut => false

theorem items_append (ops more : List (Op α)) : items (ops ++ more) = items ops ++ items more :=
  List.filterMap_append

/-- The finished segments hold what came before the last cut, the open one what came after. -/
theorem parts_run (ops : List (Op α)) :
    (ops.foldl apply empty).finished.flatten = items (ops.rdropWhile Op.isItem) ∧
      (ops.foldl apply empty).current.getD [] = items (ops.rtakeWhile Op.isItem) := by
  induction ops using List.reverseRecOn with
  | nil => exact ⟨rfl, rfl⟩
  | append_singleton ops op ih =>
      obtain ⟨before, after⟩ := ih
      rw [List.foldl_append, List.foldl_cons, List.foldl_nil]
      cases op with
      | item a =>
          rw [List.rdropWhile_concat_pos _ _ _ rfl, List.rtakeWhile_concat_pos _ _ _ rfl,
            items_append, ← after]
          exact ⟨before, rfl⟩
      | cut =>
          rw [List.rdropWhile_concat_neg _ _ _ (by simp [Op.isItem]),
            List.rtakeWhile_concat_neg _ _ _ (by simp [Op.isItem])]
          have whole := contents_run empty ops
          refine ⟨?_, rfl⟩
          rw [contents_empty, List.nil_append] at whole
          rw [items_append, ← whole]
          cases current : (ops.foldl apply empty).current <;> simp [apply, cut, contents, current, items]

/-- No segment is empty. -/
def Filled (log : SegmentedLog α) : Prop :=
  ∀ segment ∈ log.finished ++ log.current.toList, segment ≠ []

theorem filled_empty : (empty : SegmentedLog α).Filled := by
  simp [Filled, empty]

theorem Filled.append {log : SegmentedLog α} (h : log.Filled) (item : α) :
    (log.append item).Filled := by
  intro segment member
  simp only [SegmentedLog.append, Option.toList_some, List.mem_append, List.mem_singleton] at member
  rcases member with old | rfl
  · exact h segment (List.mem_append_left _ old)
  · simp

theorem Filled.cut {log : SegmentedLog α} (h : log.Filled) : log.cut.Filled := by
  intro segment member
  apply h segment
  simpa [SegmentedLog.cut] using member

end SegmentedLog
