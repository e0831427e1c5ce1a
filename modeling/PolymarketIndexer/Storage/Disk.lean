import PolymarketIndexer.Primitives
import PolymarketIndexer.Library.DecimalText

/-! # Tables, files and the output directory

A Parquet file is readable only once its writer was closed: until then it is
`unfinished`, and holds the bytes that its writer has let out. A file is found by the
event type, which names its directory, and by its name. The base path is the root of
the disk.
-/

namespace PolymarketIndexer

inductive DataType where
  | utf8
  | uint64
  deriving DecidableEq, Repr

structure Field where
  name : String
  dataType : DataType
  nullable : Bool
  deriving DecidableEq, Repr

structure Schema where
  fields : List Field
  deriving DecidableEq, Repr

inductive Cell where
  | utf8 (text : String)
  | uint64 (value : UInt64)
  deriving DecidableEq, Repr

def Cell.dataType : Cell → DataType
  | .utf8 _ => .utf8
  | .uint64 _ => .uint64

/-- A row of a table, one cell for each field. -/
abbrev Row := List Cell

structure Table where
  schema : Schema
  rows : List Row
  deriving DecidableEq, Repr

/-- The columns of a batch, each with the same number of cells. -/
abbrev Arrays := List (List Cell)

def stringArray (texts : List String) : List Cell := texts.map .utf8
def uint64Array (values : List UInt64) : List Cell := values.map .uint64

structure RecordBatch where
  schema : Schema
  arrays : Arrays

def rowsOf : Nat → Arrays → List Row
  | 0, _ => []
  | n + 1, arrays => arrays.filterMap List.head? :: rowsOf n (arrays.map List.tail)

namespace RecordBatch

def numRows (batch : RecordBatch) : Nat := (batch.arrays.head?.getD []).length

def rows (batch : RecordBatch) : List Row := rowsOf batch.numRows batch.arrays

/-- The columns must fit the schema in number and type and be equally long. -/
def tryNew (schema : Schema) (arrays : Arrays) : Except String RecordBatch :=
  let count := (arrays.head?.getD []).length
  if schema.fields.length ≠ arrays.length then
    .error "number of columns must match number of fields in schema"
  else if arrays.any (fun array => array.length ≠ count) then
    .error "all columns in a record batch must have the same length"
  else if (schema.fields.zip arrays).any
      (fun (field, array) => array.any (fun cell => cell.dataType ≠ field.dataType)) then
    .error "column types must match schema types"
  else .ok { schema := schema, arrays := arrays }

theorem tryNew_eq {schema : Schema} {arrays : Arrays} {batch : RecordBatch}
    (h : tryNew schema arrays = .ok batch) : batch = { schema := schema, arrays := arrays } := by
  simp only [tryNew] at h
  split at h
  · cases h
  · split at h
    · cases h
    · split at h
      · cases h
      · exact (Except.ok.inj h).symm

end RecordBatch

section Columns

variable {ρ : Type}

theorem rowsOf_columns (reads : List (ρ → Cell)) (rs : List ρ) :
    rowsOf rs.length (reads.map (fun read => rs.map read)) =
      rs.map (fun r => reads.map (fun read => read r)) := by
  induction rs with
  | nil => rfl
  | cons r rs ih =>
      have tails : (reads.map (fun read => (r :: rs).map read)).map List.tail =
          reads.map (fun read => rs.map read) := by
        rw [List.map_map]
        rfl
      have heads : (reads.map (fun read => (r :: rs).map read)).filterMap List.head? =
          reads.map (fun read => read r) := by
        rw [List.filterMap_map]
        exact congrFun List.filterMap_eq_map _
      rw [List.length_cons, rowsOf, heads, tails, ih]
      rfl

/-- A batch read off a list of records column by column holds these records' cells. -/
theorem RecordBatch.tryNew_columns (column : Field × (ρ → Cell))
    (columns : List (Field × (ρ → Cell))) (rs : List ρ)
    (typed : ∀ c ∈ column :: columns, ∀ r, (c.2 r).dataType = c.1.dataType) :
    ∃ batch, RecordBatch.tryNew { fields := (column :: columns).map Prod.fst }
        ((column :: columns).map (fun c => rs.map c.2)) = .ok batch ∧
      batch.rows = rs.map (fun r => (column :: columns).map (fun c => c.2 r)) := by
  refine ⟨{ schema := { fields := (column :: columns).map Prod.fst },
            arrays := (column :: columns).map (fun c => rs.map c.2) }, ?_, ?_⟩
  · have sameLength : ((column :: columns).map (fun c => rs.map c.2)).any
        (fun array => array.length ≠ rs.length) = false := by
      simp
    have wellTyped : (((column :: columns).map Prod.fst).zip
        ((column :: columns).map (fun c => rs.map c.2))).any
          (fun (field, array) => array.any (fun cell => cell.dataType ≠ field.dataType)) =
        false := by
      rw [List.zip_map', List.any_eq_false]
      intro pair member
      obtain ⟨c, inColumns, rfl⟩ := List.mem_map.mp member
      simp [typed c inColumns]
    have width : ((column :: columns).map Prod.fst).length =
        ((column :: columns).map (fun c => rs.map c.2)).length := by
      simp
    have count : ((((column :: columns).map (fun c => rs.map c.2)).head?).getD []).length =
        rs.length := by
      simp
    unfold tryNew
    simp only [count, sameLength, wellTyped, width, ne_eq, not_true_eq_false, if_false,
      Bool.false_eq_true]
  · have count : ((((column :: columns).map (fun c => rs.map c.2)).head?).getD []).length =
        rs.length := by
      simp
    have read := rowsOf_columns ((column :: columns).map Prod.snd) rs
    simp only [List.map_map, Function.comp_def] at read
    rw [rows, numRows, count, read]

end Columns

/-- Bytes that make no Parquet file, or the table of one that is whole. -/
inductive FileContent where
  | unfinished (bytes : List UInt8)
  | finished (table : Table)
  deriving DecidableEq, Repr

structure Path where
  eventType : String
  fileName : String
  deriving DecidableEq, Repr

structure Disk where
  hasDir : String → Bool
  file : Path → Option FileContent

namespace Disk

def empty : Disk where
  hasDir _ := false
  file _ := none

def createDirAll (disk : Disk) (eventType : String) : Disk :=
  { disk with hasDir := fun dir => dir == eventType || disk.hasDir dir }

def put (disk : Disk) (path : Path) (content : FileContent) : Disk :=
  { disk with file := fun p => if p = path then some content else disk.file p }

/-- Creating a file truncates what was there; `flushed` is what it comes to hold instead, for as
long as it is not closed. -/
def create (disk : Disk) (path : Path) (flushed : List UInt8) : Disk :=
  disk.put path (.unfinished flushed)

@[simp] theorem createDirAll_file (disk : Disk) (eventType : String) (path : Path) :
    (disk.createDirAll eventType).file path = disk.file path := rfl

@[simp] theorem put_hasDir (disk : Disk) (path : Path) (content : FileContent) :
    (disk.put path content).hasDir = disk.hasDir := rfl

@[simp] theorem put_file (disk : Disk) (path : Path) (content : FileContent) :
    (disk.put path content).file path = some content := by simp [put]

@[simp] theorem create_file (disk : Disk) (path : Path) (flushed : List UInt8) :
    (disk.create path flushed).file path = some (.unfinished flushed) := put_file disk path _

theorem put_file_other (disk : Disk) {path p : Path} (content : FileContent) (h : p ≠ path) :
    (disk.put path content).file p = disk.file p := by simp [put, h]

def table? (disk : Disk) (path : Path) : Option Table :=
  match disk.file path with
  | some (.finished table) => some table
  | _ => none

end Disk

/-- The name of a live file: clock reading and file set. -/
def setFileName (timestampMillis : Int) (fileSetId : UInt64) : String :=
  s!"{timestampMillis}_set{fileSetId}.parquet"

/-- The name of a historical file: the bounds of its chunk. -/
def chunkFileName (chunkStart chunkEnd : UInt64) : String :=
  s!"{chunkStart}-{chunkEnd}.parquet"

section Names

open DecimalText

private theorem digits_toString (n : UInt64) : (toString n).toList = digits n.toNat := rfl

theorem setFileName_toList (millis : Int) (id : UInt64) :
    (setFileName millis id).toList =
      signedDigits millis ++ '_' :: 's' :: 'e' :: 't' :: (digits id.toNat ++ ".parquet".toList) := by
  simp only [setFileName, signedDigits, digits_toString, String.toList_append, List.append_assoc]
  rfl

theorem chunkFileName_toList (a b : UInt64) :
    (chunkFileName a b).toList = digits a.toNat ++ '-' :: (digits b.toNat ++ ".parquet".toList) := by
  simp only [chunkFileName, digits_toString, String.toList_append, List.append_assoc]
  rfl

theorem setFileName_inj {millis millis' : Int} {id id' : UInt64} :
    setFileName millis id = setFileName millis' id' ↔ millis = millis' ∧ id = id' := by
  constructor
  · intro h
    have h := congrArg String.toList h
    rw [setFileName_toList, setFileName_toList] at h
    have free : ∀ z, '_' ∉ signedDigits z := fun z => not_mem_signedDigits (by decide) (by decide)
    obtain ⟨clock, rest⟩ := append_cons_inj (free _) (free _) h
    have ids : digits id.toNat = digits id'.toNat := by
      simpa using rest
    exact ⟨signedDigits_injective clock, UInt64.toNat_inj.mp (digits_injective ids)⟩
  · rintro ⟨rfl, rfl⟩
    rfl

theorem chunkFileName_inj {a a' b b' : UInt64} :
    chunkFileName a b = chunkFileName a' b' ↔ a = a' ∧ b = b' := by
  constructor
  · intro h
    have h := congrArg String.toList h
    rw [chunkFileName_toList, chunkFileName_toList] at h
    have free : ∀ n, '-' ∉ digits n := fun n => not_mem_digits (by decide)
    obtain ⟨first, rest⟩ := append_cons_inj (free _) (free _) h
    have last : digits b.toNat = digits b'.toNat := by
      simpa using rest
    exact ⟨UInt64.toNat_inj.mp (digits_injective first), UInt64.toNat_inj.mp (digits_injective last)⟩
  · rintro ⟨rfl, rfl⟩
    rfl

/-- Only a live name has an underscore. -/
theorem setFileName_ne_chunkFileName (millis : Int) (id a b : UInt64) :
    setFileName millis id ≠ chunkFileName a b := by
  intro h
  have underscore : '_' ∈ (chunkFileName a b).toList := by
    rw [← h, setFileName_toList]
    simp
  rw [chunkFileName_toList] at underscore
  have free : ∀ n, '_' ∉ digits n := fun n => not_mem_digits (by decide)
  simp [free] at underscore

end Names

end PolymarketIndexer
