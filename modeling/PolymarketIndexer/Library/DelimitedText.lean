import Mathlib.Data.List.Basic

/-! # Quoted texts and bracketed lists

Reading a text from the left: a quoted text ends at its first quote without a backslash, a list at
its closing bracket. A reader that gives back what was written in front of any rest composes to
readers of lists of such items.
-/

namespace DelimitedText

/-- Takes a value off the front of a text. -/
abbrev TextReader (α : Type*) := List Char → Option (α × List Char)

/-- The reader gives back what was written, whatever follows. -/
def Reads {α : Type*} (read : TextReader α) (write : α → List Char) : Prop :=
  ∀ x rest, read (write x ++ rest) = some (x, rest)

section Quoted

def quote (text : List Char) : List Char :=
  '"' :: text.flatMap (fun c => if c = '"' ∨ c = '\\' then ['\\', c] else [c]) ++ ['"']

/-- The text up to the closing quote. -/
def readBody : TextReader (List Char)
  | [] => none
  | '"' :: rest => some ([], rest)
  | '\\' :: c :: rest => (readBody rest).map (fun read => (c :: read.1, read.2))
  | c :: rest => (readBody rest).map (fun read => (c :: read.1, read.2))

def readQuoted : TextReader (List Char)
  | '"' :: rest => readBody rest
  | _ => none

theorem readBody_escaped (c : Char) (rest : List Char) :
    readBody ((if c = '"' ∨ c = '\\' then ['\\', c] else [c]) ++ rest) =
      (readBody rest).map (fun read => (c :: read.1, read.2)) := by
  by_cases special : c = '"' ∨ c = '\\'
  · rw [if_pos special]
    rfl
  · rw [if_neg special, List.cons_append, List.nil_append, readBody]
    · exact fun quote => special (.inl quote)
    · exact fun _ _ slash => absurd (.inr slash) special

theorem readQuoted_quote : Reads readQuoted quote := by
  intro text rest
  rw [quote, List.cons_append, List.cons_append, List.append_assoc, readQuoted]
  induction text with
  | nil => rfl
  | cons c text ih => rw [List.flatMap_cons, List.append_assoc, readBody_escaped, ih]; rfl

end Quoted

section Items

variable {α : Type*} {read : TextReader α} {write : α → List Char} {close : Char}

/-- Items behind a comma each, up to the closing bracket. -/
def readMore (read : TextReader α) (close : Char) : Nat → TextReader (List α)
  | fuel + 1, c :: rest =>
      if c = close then some ([], rest)
      else if c = ',' then do
        let (x, rest) ← read rest
        let (xs, rest) ← readMore read close fuel rest
        return (x :: xs, rest)
      else none
  | _, _ => none

/-- Items with commas between them, up to the closing bracket. -/
def readItems (read : TextReader α) (close : Char) (text : List Char) :
    Option (List α × List Char) :=
  if text.head? = some close then some ([], text.tail)
  else readMore read close (text.length + 2) (',' :: text)

def joined : List (List Char) → List Char
  | [] => []
  | x :: xs => x ++ xs.flatMap (fun y => ',' :: y)

theorem readMore_flatMap (reads : Reads read write) (apart : close ≠ ',') (xs : List α)
    (rest : List Char) {fuel : Nat} (enough : xs.length < fuel) :
    readMore read close fuel (xs.flatMap (fun x => ',' :: write x) ++ close :: rest) =
      some (xs, rest) := by
  induction xs generalizing fuel with
  | nil =>
      cases fuel with
      | zero => cases enough
      | succ fuel => simp [readMore]
  | cons x xs ih =>
      cases fuel with
      | zero => cases enough
      | succ fuel =>
          have item := reads x (xs.flatMap (fun x => ',' :: write x) ++ close :: rest)
          have more := ih (Nat.lt_of_succ_lt_succ enough)
          simp [readMore, apart.symm, item, more]

theorem length_le_flatMap (xs : List α) (rest : List Char) :
    xs.length ≤ (xs.flatMap (fun x => ',' :: write x) ++ rest).length := by
  induction xs with
  | nil => exact Nat.zero_le _
  | cons x xs ih =>
      simp only [List.flatMap_cons, List.cons_append, List.length_cons, List.append_assoc,
        List.length_append] at ih ⊢
      omega

/-- Written items are read back when none of them starts like the closing bracket. -/
theorem readItems_joined (reads : Reads read write) (apart : close ≠ ',')
    (starts : ∀ x, ∃ c text, write x = c :: text ∧ c ≠ close) (xs : List α) (rest : List Char) :
    readItems read close (joined (xs.map write) ++ close :: rest) = some (xs, rest) := by
  cases xs with
  | nil => simp [readItems, joined]
  | cons x xs =>
      obtain ⟨c, text, first, other⟩ := starts x
      have opened : (joined ((x :: xs).map write) ++ close :: rest).head? ≠ some close := by
        simp [joined, first, other]
      rw [readItems, if_neg opened]
      -- a comma in front makes the first item like the others
      have commas : ',' :: (joined ((x :: xs).map write) ++ close :: rest) =
          (x :: xs).flatMap (fun x => ',' :: write x) ++ close :: rest := by
        simp [joined, List.flatMap_map]
      rw [commas]
      refine readMore_flatMap reads apart (x :: xs) rest ?_
      have enough := @length_le_flatMap _ write (x :: xs) (close :: rest)
      rw [← commas] at enough
      simpa using Nat.lt_succ_of_le enough

end Items

end DelimitedText
