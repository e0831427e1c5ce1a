import Mathlib.Data.List.Forall2
import Mathlib.Data.List.Nodup

/-! # Flat Avro records

Schemas and values of records of strings and longs, and their binary form: a long is
its zigzag number in base 128, lowest digits first, a string its length and its UTF-8
bytes, a record its fields in the order of the schema. Reading with the schema gives
back what was written.
-/

namespace Avro

inductive FieldType where
  | string
  | long
  deriving DecidableEq, Repr

structure Field where
  name : String
  type : FieldType
  deriving DecidableEq, Repr

/-- A schema that is not a record's is of no further interest. -/
inductive Schema where
  | record (name : String) (fields : List Field)
  | other
  deriving DecidableEq, Repr

inductive Value where
  | null
  | string (text : String)
  | long (value : Int64)
  deriving DecidableEq, Repr

/-- The fields of a record by name, in the order of its schema. -/
abbrev Record := List (String × Value)

def isName (name : String) : Bool :=
  match name.toList with
  | [] => false
  | c :: cs => (c.isAlpha || c == '_') && cs.all (fun c => c.isAlphanum || c == '_')

/-- The rules that a record's schema is checked against. -/
structure WellNamed (name : String) (fields : List Field) : Prop where
  record : isName name = true
  each : ∀ field ∈ fields, isName field.name = true
  distinct : (fields.map Field.name).Nodup

instance (name : String) (fields : List Field) : Decidable (WellNamed name fields) :=
  decidable_of_iff
    (isName name = true ∧ (∀ field ∈ fields, isName field.name = true) ∧
      (fields.map Field.name).Nodup)
    ⟨fun ⟨record, each, distinct⟩ => ⟨record, each, distinct⟩,
      fun ⟨record, each, distinct⟩ => ⟨record, each, distinct⟩⟩

def Fits (field : Field) (entry : String × Value) : Prop :=
  field.name = entry.1 ∧ match field.type, entry.2 with
    | .string, .string _ => True
    | .long, .long _ => True
    | _, _ => False

instance : DecidableRel Fits := fun field entry => by
  unfold Fits
  cases field.type <;> cases entry.2 <;> exact inferInstance

/-- An Avro library: it parses the schema of a record and writes and reads records. -/
structure Codec where
  parseStr : String → List Field → Except String Schema
  encode : Schema → Record → Except String (List UInt8)
  decode : Schema → List UInt8 → Option Record

structure Codec.Lawful (codec : Codec) : Prop where
  parses : ∀ name fields, WellNamed name fields →
    codec.parseStr name fields = .ok (.record name fields)
  reads : ∀ name fields record, List.Forall₂ Fits fields record →
    ∃ bytes, codec.encode (.record name fields) record = .ok bytes ∧
      codec.decode (.record name fields) bytes = some record

section Records

/-- A record of the schema with nothing filled in. -/
def Record.new : Schema → Option Record
  | .record _ fields => some (fields.map (fun field => (field.name, .null)))
  | .other => none

def Record.put (record : Record) (name : String) (value : Value) : Record :=
  record.map (fun entry => if entry.1 = name then (name, value) else entry)

def Record.putAll (record : Record) (entries : Record) : Record :=
  entries.foldl (fun record entry => record.put entry.1 entry.2) record

theorem Record.put_absent {record : Record} {name : String} (absent : name ∉ record.map Prod.fst)
    (value : Value) : record.put name value = record := by
  have kept : ∀ entry ∈ record, (if entry.1 = name then (name, value) else entry) = id entry := by
    intro entry member
    apply if_neg
    rintro rfl
    exact absent (List.mem_map.mpr ⟨entry, member, rfl⟩)
  exact (List.map_congr_left kept).trans (List.map_id record)

theorem Record.put_next {filled rest : Record} {name : String} {old : Value}
    (before : name ∉ filled.map Prod.fst) (after : name ∉ rest.map Prod.fst) (value : Value) :
    Record.put (filled ++ (name, old) :: rest) name value = filled ++ (name, value) :: rest := by
  have front := Record.put_absent before value
  have back := Record.put_absent after value
  unfold Record.put at front back ⊢
  rw [List.map_append, List.map_cons, front, back, if_pos rfl]

/-- Filling the fields in, each once, in whatever order the record has them. -/
theorem Record.putAll_new {name : String} {fields : List Field} {entries : Record}
    (names : entries.map Prod.fst = fields.map Field.name)
    (distinct : (fields.map Field.name).Nodup) :
    (Record.new (.record name fields)).map (fun record => record.putAll entries) =
      some entries := by
  have general : ∀ filled rest : Record, ((filled ++ rest).map Prod.fst).Nodup →
      Record.putAll (filled ++ rest.map (fun entry => (entry.1, .null))) rest = filled ++ rest := by
    intro filled rest
    induction rest generalizing filled with
    | nil => exact fun _ => rfl
    | cons entry rest ih =>
        intro nodup
        have apart : entry.1 ∉ filled.map Prod.fst ∧ entry.1 ∉ rest.map Prod.fst := by
          rw [List.map_append, List.map_cons, List.nodup_middle, List.nodup_cons,
            List.mem_append, not_or] at nodup
          exact nodup.1
        have blank : entry.1 ∉ (rest.map (fun entry => (entry.1, Value.null))).map Prod.fst := by
          rw [List.map_map]
          exact apart.2
        have next := ih (filled ++ [entry]) (by rw [List.append_assoc]; exact nodup)
        rw [List.append_assoc, List.append_assoc] at next
        rw [List.map_cons, Record.putAll, List.foldl_cons, Record.put_next apart.1 blank]
        exact next
  have blank : fields.map (fun field => (field.name, Value.null)) =
      entries.map (fun entry => (entry.1, Value.null)) := by
    have paired := congrArg (List.map (fun name => (name, Value.null))) names
    rw [List.map_map, List.map_map] at paired
    exact paired.symm
  rw [Record.new, Option.map_some, blank]
  exact congrArg some (general [] entries (by rw [List.nil_append, names]; exact distinct))

end Records

section Binary

/-- A number in base 128, lowest digit first, each digit but the last marked. -/
def writeNat (n : Nat) : List UInt8 :=
  if n < 128 then [UInt8.ofNat n] else UInt8.ofNat (128 + n % 128) :: writeNat (n / 128)

def readNat : List UInt8 → Option (Nat × List UInt8)
  | [] => none
  | byte :: bytes =>
      if byte.toNat < 128 then some (byte.toNat, bytes)
      else (readNat bytes).map (fun (high, rest) => (byte.toNat % 128 + 128 * high, rest))

theorem readNat_writeNat (n : Nat) (rest : List UInt8) :
    readNat (writeNat n ++ rest) = some (n, rest) := by
  induction n using Nat.strongRecOn with
  | ind n ih =>
      rw [writeNat]
      by_cases small : n < 128
      · have digit : (UInt8.ofNat n).toNat = n := by
          rw [UInt8.toNat_ofNat']
          omega
        rw [if_pos small, List.singleton_append, readNat, digit, if_pos small]
      · have digit : (UInt8.ofNat (128 + n % 128)).toNat = 128 + n % 128 := by
          rw [UInt8.toNat_ofNat']
          omega
        have whole : (128 + n % 128) % 128 + 128 * (n / 128) = n := by omega
        rw [if_neg small, List.cons_append, readNat, if_neg (by omega), ih (n / 128) (by omega),
          Option.map_some, digit]
        simp only [whole]

def zigzag (z : Int) : Nat := if 0 ≤ z then 2 * z.toNat else 2 * (-z).toNat - 1

def unzigzag (n : Nat) : Int := if n % 2 = 0 then (n / 2 : Nat) else -((n + 1) / 2 : Nat)

theorem unzigzag_zigzag (z : Int) : unzigzag (zigzag z) = z := by
  unfold unzigzag zigzag
  split <;> split <;> omega

def textBytes (text : String) : List UInt8 := text.toByteArray.data.toList

def writeValue : Value → List UInt8
  | .null => []
  | .string text => writeNat (zigzag (textBytes text).length) ++ textBytes text
  | .long value => writeNat (zigzag value.toInt)

def readValue : FieldType → List UInt8 → Option (Value × List UInt8)
  | .string, bytes =>
      match readNat bytes with
      | none => none
      | some (n, rest) =>
          let length := (unzigzag n).toNat
          (String.fromUTF8? ⟨(rest.take length).toArray⟩).map
            (fun text => (.string text, rest.drop length))
  | .long, bytes =>
      (readNat bytes).map (fun (n, rest) => (.long (Int64.ofInt (unzigzag n)), rest))

def readFields : List Field → List UInt8 → Option (Record × List UInt8)
  | [], bytes => some ([], bytes)
  | field :: fields, bytes =>
      match readValue field.type bytes with
      | none => none
      | some (value, rest) =>
          (readFields fields rest).map (fun (record, rest) => ((field.name, value) :: record, rest))

theorem fromUTF8_textBytes (text : String) :
    String.fromUTF8? ⟨(textBytes text).toArray⟩ = some text := by
  have bytes : (⟨(textBytes text).toArray⟩ : ByteArray) = text.toByteArray := rfl
  rw [bytes, String.fromUTF8?, dif_pos text.isValidUTF8]
  rfl

theorem readValue_writeValue {field : Field} {entry : String × Value} (fits : Fits field entry)
    (rest : List UInt8) :
    readValue field.type (writeValue entry.2 ++ rest) = some (entry.2, rest) := by
  obtain ⟨-, typed⟩ := fits
  obtain ⟨name, value⟩ := entry
  cases kind : field.type with
  | string =>
      cases value with
      | string text =>
          have length : (unzigzag (zigzag (textBytes text).length)).toNat =
              (textBytes text).length := by
            rw [unzigzag_zigzag, Int.toNat_natCast]
          simp only [readValue, writeValue, List.append_assoc, readNat_writeNat, length,
            List.take_left, List.drop_left, fromUTF8_textBytes, Option.map_some]
      | null => rw [kind] at typed; cases typed
      | long value => rw [kind] at typed; cases typed
  | long =>
      cases value with
      | long value =>
          simp only [readValue, writeValue, readNat_writeNat, Option.map_some, unzigzag_zigzag,
            Int64.ofInt_toInt]
      | null => rw [kind] at typed; cases typed
      | string text => rw [kind] at typed; cases typed

theorem readFields_write {fields : List Field} {record : Record}
    (fits : List.Forall₂ Fits fields record) (rest : List UInt8) :
    readFields fields (record.flatMap (fun entry => writeValue entry.2) ++ rest) =
      some (record, rest) := by
  induction fits with
  | nil => rfl
  | cons fits _ ih =>
      rw [List.flatMap_cons, List.append_assoc, readFields, readValue_writeValue fits]
      simp only [ih, Option.map_some, fits.1]

/-- The binary form, without the framing of a container file. -/
def binary : Codec where
  parseStr name fields :=
    if WellNamed name fields then .ok (.record name fields) else .error "invalid schema"
  encode
    | .record _ fields, record =>
        if List.Forall₂ Fits fields record then
          .ok (record.flatMap (fun entry => writeValue entry.2))
        else .error "value does not match schema"
    | .other, _ => .error "not a record"
  decode
    | .record _ fields, bytes => (readFields fields bytes).map Prod.fst
    | .other, _ => none

theorem binary_lawful : binary.Lawful where
  parses _ _ named := if_pos named
  reads _ fields record fits := by
    refine ⟨_, if_pos fits, ?_⟩
    have read := readFields_write fits []
    rw [List.append_nil] at read
    simp only [binary, read, Option.map_some]

end Binary

end Avro
