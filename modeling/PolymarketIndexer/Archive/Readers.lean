import PolymarketIndexer.Archive.Reading
import PolymarketIndexer.Library.DelimitedText

/-! # Readers of the concrete texts

The `0x` texts and the compact JSON of the concrete libraries can be read back.
-/

namespace PolymarketIndexer.Reference

open DelimitedText

def unhex (text : String) : Option (List Char) :=
  match text.toList with
  | '0' :: 'x' :: digits => some digits
  | _ => none

theorem unhex_hexText (digits : List Char) : unhex (hexText digits) = some digits := by
  rw [unhex, hexText, String.toList_ofList]
  rfl

def readString : TextReader String :=
  fun text => (readQuoted text).map (fun read => (String.ofList read.1, read.2))

def readEntry : TextReader (String × String) := fun text => do
  let (key, rest) ← readString text
  match rest with
  | ':' :: rest => (readString rest).map (fun read => ((key, read.1), read.2))
  | _ => none

/-- A list between its brackets, which nothing follows. -/
def readWhole {α : Type} (read : TextReader α) (left right : Char) (text : String) :
    Option (List α) :=
  match text.toList with
  | first :: rest =>
      if first = left then
        match readItems read right rest with
        | some (items, []) => some items
        | _ => none
      else none
  | [] => none

def readers : TextReaders where
  b256 text := ((unhex text).bind HexText.read).map bytes32
  address text := ((unhex text).bind HexText.read).map address
  u256 text := ((unhex text).bind HexText.read).map uint256
  bytes text := ((unhex text).bind HexText.readBytes).map Bytes.mk
  hash text := ((unhex text).bind HexText.read).map bytes32
  array := readWhole readString '[' ']'
  object := readWhole readEntry '\x7b' '\x7d'

section Texts

def writeString (text : String) : List Char := quote text.toList

def writeEntry (entry : String × String) : List Char :=
  writeString entry.1 ++ ':' :: writeString entry.2

theorem readString_writes : Reads readString writeString := by
  intro text rest
  rw [readString, writeString, readQuoted_quote]
  simp

theorem readEntry_writes : Reads readEntry writeEntry := by
  intro entry rest
  have key := readString_writes entry.1 (':' :: (writeString entry.2 ++ rest))
  have value := readString_writes entry.2 rest
  simp [readEntry, writeEntry, key, value]

theorem joined_joined (texts : List (List Char)) : joined texts = DelimitedText.joined texts := by
  cases texts <;> rfl

theorem readWhole_writes {α : Type} {read : TextReader α} {write : α → List Char}
    {left right : Char} (reads : Reads read write) (apart : right ≠ ',')
    (starts : ∀ x, ∃ c text, write x = c :: text ∧ c ≠ right) (xs : List α) :
    readWhole read left right
      (String.ofList (left :: joined (xs.map write) ++ [right])) = some xs := by
  rw [readWhole, String.toList_ofList, joined_joined, List.cons_append]
  dsimp only
  rw [if_pos rfl, readItems_joined reads apart starts xs []]

theorem display_strings (texts : List String) :
    json (.array (texts.map .string)) = '[' :: joined (texts.map writeString) ++ [']'] := by
  rw [json, jsonItems_strings]
  rfl

theorem jsonFields_strings (fields : List (String × String)) :
    jsonFields (fields.map (fun f => (f.1, .string f.2))) =
      fields.map (fun f => (f.1, writeEntry f)) := by
  induction fields with
  | nil => rfl
  | cons f fields ih =>
      rw [List.map_cons, jsonFields, ih, json]
      rfl

/-- An object is written as its entries in the order of their keys. -/
theorem display_entries (fields : List (String × String)) : ∃ entries : List (String × String),
    entries.Perm fields ∧ json (.object (fields.map (fun f => (f.1, .string f.2)))) =
      '\x7b' :: joined (entries.map writeEntry) ++ ['\x7d'] := by
  refine ⟨fields.insertionSort (fun a b => a.1 ≤ b.1), List.perm_insertionSort _ _, ?_⟩
  have sorted := List.map_insertionSort (fun a b : String × String => a.1 ≤ b.1)
    (fun a b : String × List Char => a.1 ≤ b.1) (fun f => (f.1, writeEntry f)) fields
    (fun _ _ _ _ => Iff.rfl)
  rw [json, jsonFields_strings, ← sorted, List.map_map]
  rfl

end Texts

theorem undo : readers.Undo alloy where
  b256 x := by
    refine ⟨_, rfl, ?_⟩
    have read := @HexText.read_fixed 64 x.word.toNat x.word.isLt
    simp [readers, unhex_hexText, read, bytes32]
  address x := by
    refine ⟨_, rfl, ?_⟩
    have read := @HexText.read_fixed 40 x.word.toNat x.word.isLt
    simp [readers, unhex_hexText, read, address]
  u256 x := by
    refine ⟨_, rfl, ?_⟩
    simp [readers, unhex_hexText, HexText.read_minimal, uint256]
  bytes x := by
    refine ⟨_, rfl, ?_⟩
    simp [readers, unhex_hexText, HexText.readBytes_bytes]
  hash x := by
    have read := @HexText.read_fixed 64 x.word.toNat x.word.isLt
    simp [readers, alloy, unhex_hexText, read, bytes32]
  array texts := by
    have starts : ∀ text, ∃ c rest, writeString text = c :: rest ∧ c ≠ ']' :=
      fun text => ⟨'"', _, rfl, by decide⟩
    have read := @readWhole_writes _ _ _ '[' ']' readString_writes (by decide) starts texts
    rw [← display_strings] at read
    exact read
  object fields _ := by
    obtain ⟨entries, perm, shown⟩ := display_entries fields
    have starts : ∀ entry, ∃ c rest, writeEntry entry = c :: rest ∧ c ≠ '\x7d' :=
      fun entry => ⟨'"', _, rfl, by decide⟩
    have read := @readWhole_writes _ _ _ '\x7b' '\x7d' readEntry_writes (by decide) starts entries
    rw [← shown] at read
    exact ⟨entries, read, perm⟩

end PolymarketIndexer.Reference
