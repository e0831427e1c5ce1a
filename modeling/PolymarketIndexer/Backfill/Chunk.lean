import PolymarketIndexer.Decode
import PolymarketIndexer.Storage.Disk
import PolymarketIndexer.Backfill.ChunkRanges
import PolymarketIndexer.Library.Attempt
import PolymarketIndexer.Library.Unordered
import Mathlib.Data.List.Sort

/-! # One chunk of a backfill

The logs of a chunk are decoded and grouped by event type. Each group is sorted and
written to a file of its own, column by column. A log that fails to decode is only
warned about; one without its metadata is counted.
-/

namespace PolymarketIndexer.Backfill

open Unordered

structure EventRow where
  blockNumber : UInt64
  txHash : String
  logIndex : UInt64
  values : List String
  deriving DecidableEq, Repr

def EventRow.cells (eventType : String) (row : EventRow) : Row :=
  .utf8 eventType :: .uint64 row.blockNumber :: .utf8 row.txHash :: .uint64 row.logIndex ::
    row.values.map .utf8

section Grouping

abbrev Group := List String × List EventRow

structure Grouped where
  byEvent : Map String Group
  missingMetadataCount : UInt64

variable (alloy : Alloy)

def groupLog (grouped : Grouped) (log : Log) : Grouped :=
  match decodeLog alloy log with
  | .ok none => grouped
  | .error _ => grouped
  | .ok (some decoded) =>
      match log.blockNumber, log.transactionHash, log.logIndex with
      | some blockNumber, some txHash, some logIndex =>
          let row : EventRow :=
            { blockNumber := blockNumber, txHash := alloy.hashToString txHash,
              logIndex := logIndex, values := decoded.columns.map Prod.snd }
          { grouped with
            byEvent := push grouped.byEvent decoded.eventType (decoded.columns.map Prod.fst) row }
      | _, _, _ =>
          { grouped with
            missingMetadataCount := U64.saturatingAdd grouped.missingMetadataCount 1 }

def group (logs : List Log) : Grouped :=
  logs.foldl (groupLog alloy) { byEvent := ∅, missingMetadataCount := 0 }

/-- What the backfill makes of a log. -/
inductive Reading where
  | ignored
  | undecodable (error : String)
  | incomplete
  | row (eventType : String) (columns : List String) (row : EventRow)

def read (log : Log) : Reading :=
  match decodeLog alloy log with
  | .ok none => .ignored
  | .error e => .undecodable e
  | .ok (some decoded) =>
      match log.blockNumber, log.transactionHash, log.logIndex with
      | some blockNumber, some txHash, some logIndex =>
          .row decoded.eventType (decoded.columns.map Prod.fst)
            { blockNumber := blockNumber, txHash := alloy.hashToString txHash,
              logIndex := logIndex, values := decoded.columns.map Prod.snd }
      | _, _, _ => .incomplete

def entryOf (log : Log) : Option (String × List String × EventRow) :=
  match read alloy log with
  | .row eventType columns row => some (eventType, columns, row)
  | _ => none

/-- The row of a log, when it is one of the event type. -/
def eventRow? (E : String) (log : Log) : Option EventRow :=
  match read alloy log with
  | .row eventType _ row => if eventType = E then some row else none
  | _ => none

def eventRows (E : String) (logs : List Log) : List EventRow := logs.filterMap (eventRow? alloy E)

theorem groupLog_eq (grouped : Grouped) (log : Log) :
    groupLog alloy grouped log = match read alloy log with
      | .row eventType columns row =>
          { grouped with byEvent := push grouped.byEvent eventType columns row }
      | .incomplete =>
          { grouped with
            missingMetadataCount := U64.saturatingAdd grouped.missingMetadataCount 1 }
      | _ => grouped := by
  unfold groupLog read
  rcases decodeLog alloy log with e | _ | decoded
  · rfl
  · rfl
  · rcases log.blockNumber with _ | blockNumber
    · rfl
    · rcases log.transactionHash with _ | txHash
      · rfl
      · rcases log.logIndex with _ | logIndex <;> rfl

variable {alloy}

/-- The row of a log carries the log's own position and its decoded columns. -/
theorem read_eq_row {log : Log} {E : String} {columns : List String} {row : EventRow} :
    read alloy log = .row E columns row ↔ ∃ decoded blockNumber txHash logIndex,
      decodeLog alloy log = .ok (some decoded) ∧ log.blockNumber = some blockNumber ∧
      log.transactionHash = some txHash ∧ log.logIndex = some logIndex ∧
      E = decoded.eventType ∧ columns = decoded.columns.map Prod.fst ∧
      row = { blockNumber := blockNumber, txHash := alloy.hashToString txHash,
              logIndex := logIndex, values := decoded.columns.map Prod.snd } := by
  unfold read
  rcases decodeLog alloy log with e | _ | event
  · simp
  · simp
  · rcases log.blockNumber with _ | blockNumber
    · simp
    · rcases log.transactionHash with _ | txHash
      · simp
      · rcases log.logIndex with _ | logIndex
        · simp
        · simp [eq_comm]

theorem eventRow_eq_some {log : Log} {E : String} {row : EventRow} :
    eventRow? alloy E log = some row ↔ ∃ columns, read alloy log = .row E columns row := by
  unfold eventRow?
  cases read alloy log with
  | row eventType columns row' =>
      simp only [Option.ite_none_right_eq_some, Option.some.injEq, Reading.row.injEq]
      constructor
      · rintro ⟨rfl, rfl⟩
        exact ⟨columns, rfl, rfl, rfl⟩
      · rintro ⟨_, rfl, -, rfl⟩
        exact ⟨rfl, rfl⟩
  | _ => simp

/-- A row's event type fixes the group's columns and the number of the row's values. -/
theorem read_row {log : Log} {E : String} {columns : List String} {row : EventRow}
    (h : read alloy log = .row E columns row) :
    ∃ kind : EventType, E = kind.name ∧ columns = columnNames kind ∧
      row.values.length = (columnNames kind).length := by
  obtain ⟨decoded, _, _, _, isDecoded, -, -, -, rfl, rfl, rfl⟩ := read_eq_row.mp h
  obtain ⟨kind, -, name, names⟩ := decodeLog_some isDecoded
  refine ⟨kind, name, names, ?_⟩
  rw [← names, List.length_map, List.length_map]

theorem foldl_byEvent (logs : List Log) (grouped : Grouped) :
    (logs.foldl (groupLog alloy) grouped).byEvent =
      (logs.filterMap (entryOf alloy)).foldl
        (fun groups entry => push groups entry.1 entry.2.1 entry.2.2) grouped.byEvent := by
  induction logs generalizing grouped with
  | nil => rfl
  | cons log logs ih =>
      rw [List.foldl_cons, ih, groupLog_eq, List.filterMap_cons, entryOf]
      cases read alloy log <;> rfl

theorem eventRows_eq (E : String) (logs : List Log) :
    eventRows alloy E logs =
      ((logs.filterMap (entryOf alloy)).filter (fun entry => entry.1 = E)).map
        (fun entry => entry.2.2) := by
  unfold eventRows
  induction logs with
  | nil => rfl
  | cons log logs ih =>
      rw [List.filterMap_cons, List.filterMap_cons, eventRow?, entryOf]
      cases read alloy log with
      | row eventType columns row =>
          by_cases same : eventType = E <;> simp [same, ih]
      | _ => exact ih

/-- The group of an event type: its rows in order, under its columns. -/
theorem group_lookup {logs : List Log} {E : String} :
    ((group alloy logs).byEvent.lookup E = none ∧ eventRows alloy E logs = []) ∨
      ∃ kind : EventType, E = kind.name ∧
        (group alloy logs).byEvent.lookup E = some (columnNames kind, eventRows alloy E logs) ∧
        eventRows alloy E logs ≠ [] := by
  have lookup := lookup_foldl_push (logs.filterMap (entryOf alloy))
    (∅ : Map String Group) E
  rw [group, foldl_byEvent, lookup, eventRows_eq]
  cases own : (logs.filterMap (entryOf alloy)).filter (fun entry => entry.1 = E) with
  | nil => exact .inl ⟨rfl, rfl⟩
  | cons entry rest =>
      right
      have member : entry ∈ (logs.filterMap (entryOf alloy)).filter (fun entry => entry.1 = E) := by
        rw [own]
        exact List.mem_cons_self
      obtain ⟨inEntries, named⟩ := List.mem_filter.mp member
      obtain ⟨log, -, isEntry⟩ := List.mem_filterMap.mp inEntries
      unfold entryOf at isEntry
      split at isEntry
      · rename_i eventType columns row wasRead
        obtain rfl := Option.some.inj isEntry
        obtain ⟨kind, name, columns', -⟩ := read_row wasRead
        refine ⟨kind, (of_decide_eq_true named).symm.trans name, ?_, List.cons_ne_nil _ _⟩
        rw [← columns']
        rfl
      · cases isEntry

theorem group_entry {logs : List Log} {E : String} {columns : List String} {rows : List EventRow}
    (h : (group alloy logs).byEvent.lookup E = some (columns, rows)) :
    rows = eventRows alloy E logs ∧ rows ≠ [] ∧
      ∃ kind : EventType, E = kind.name ∧ columns = columnNames kind := by
  rcases @group_lookup alloy logs E with ⟨none_, -⟩ | ⟨kind, name, found, filled⟩
  · cases none_.symm.trans h
  · obtain ⟨rfl, rfl⟩ := Prod.mk.inj (Option.some.inj (found.symm.trans h))
    exact ⟨rfl, filled, kind, name, rfl⟩

/-- Every row of a group has one value for each of the group's columns. -/
theorem group_fits {logs : List Log} {E : String} {columns : List String} {rows : List EventRow}
    (h : (group alloy logs).byEvent.lookup E = some (columns, rows)) :
    ∀ row ∈ rows, row.values.length = columns.length := by
  obtain ⟨rfl, -, kind, name, rfl⟩ := group_entry h
  intro row member
  obtain ⟨log, -, isRow⟩ := List.mem_filterMap.mp member
  obtain ⟨columns, wasRead⟩ := eventRow_eq_some.mp isRow
  obtain ⟨kind', name', -, length⟩ := read_row wasRead
  obtain rfl : kind' = kind := EventType.name_injective (name'.symm.trans name)
  exact length

/-- The count is positive exactly when a decoded log lacked metadata. -/
theorem group_missing (logs : List Log) :
    0 < (group alloy logs).missingMetadataCount ↔
      ∃ log ∈ logs, read alloy log = .incomplete := by
  have general : ∀ grouped : Grouped,
      0 < (logs.foldl (groupLog alloy) grouped).missingMetadataCount ↔
        0 < grouped.missingMetadataCount ∨ ∃ log ∈ logs, read alloy log = .incomplete := by
    induction logs with
    | nil => simp
    | cons log logs ih =>
        intro grouped
        rw [List.foldl_cons, ih, groupLog_eq]
        cases was : read alloy log with
        | incomplete =>
            have bumped : 0 < U64.saturatingAdd grouped.missingMetadataCount 1 := by
              rw [UInt64.lt_iff_toNat_lt, U64.saturatingAdd_toNat]
              have : (1 : UInt64).toNat = 1 := rfl
              have : (0 : UInt64).toNat = 0 := rfl
              omega
            simp [was, bumped]
        | _ => simp [was]
  rw [group, general]
  simp

end Grouping

end PolymarketIndexer.Backfill
