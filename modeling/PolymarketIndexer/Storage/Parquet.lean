import PolymarketIndexer.Storage.Disk
import PolymarketIndexer.Library.Attempt
import PolymarketIndexer.Library.Unordered
import PolymarketIndexer.Library.SegmentedLog

/-! # The Parquet sink

Rows are appended to one open writer for each event type; rotating closes the writers
and starts the next file set. Each call takes the answers of the clock and of the
file and Parquet libraries as an argument, so every pattern of failures is a run
of the model. The writers that were closed successfully are kept as a history.
-/

namespace PolymarketIndexer

open Unordered

/-- The arguments of one `write_event`. -/
structure WriteCall where
  eventType : String
  blockNumber : UInt64
  txHash : String
  logIndex : UInt64
  columns : List (String × String)
  deriving DecidableEq, Repr

def WriteCall.row (call : WriteCall) : Row :=
  .utf8 call.eventType :: .uint64 call.blockNumber :: .utf8 call.txHash ::
    .uint64 call.logIndex :: call.columns.map (fun column => .utf8 column.2)

structure ArrowWriter where
  path : Path
  schema : Schema
  rows : List Row
  deriving DecidableEq, Repr

def ArrowWriter.table (writer : ArrowWriter) : Table :=
  { schema := writer.schema, rows := writer.rows }

structure ParquetStorage where
  writers : Map String ArrowWriter
  schemas : Map String Schema
  fileSetId : UInt64

/-- The storage with the disk it writes to and the writers closed so far. -/
structure ParquetSink where
  storage : ParquetStorage
  disk : Disk
  closed : List ArrowWriter

/-- What the outside answers to one `write_event`. A file that the call creates holds `flushed` if
its writer is never closed. -/
structure WriteIo where
  timestampMillis : Int
  createDirAll : Except String Unit
  createFile : Except String Unit
  tryNewWriter : Except String Unit
  tryNewBatch : Except String Unit
  write : Except String Unit
  flushed : List UInt8 := []

/-- What the outside answers to a close: the drain order and each writer's outcome. -/
structure CloseIo where
  order : Order ((_ : String) × ArrowWriter)
  close : String → Except String Unit

namespace ParquetStorage

def new : ParquetStorage := { writers := ∅, schemas := ∅, fileSetId := 0 }

def baseFields : List Field :=
  [{ name := "event_type", dataType := .utf8, nullable := false },
    { name := "block_number", dataType := .uint64, nullable := false },
    { name := "transaction_hash", dataType := .utf8, nullable := false },
    { name := "log_index", dataType := .uint64, nullable := false }]

def expectedSchemaNames (columns : List String) : List String :=
  ["event_type", "block_number", "transaction_hash", "log_index"] ++ columns

def schemaNames (schema : Schema) : List String := schema.fields.map Field.name

def schemaFor (columns : List String) : Schema :=
  { fields := baseFields ++
      columns.map (fun name => { name := name, dataType := .utf8, nullable := false }) }

theorem schemaNames_schemaFor (columns : List String) :
    schemaNames (schemaFor columns) = expectedSchemaNames columns := by
  simp [schemaNames, schemaFor, expectedSchemaNames, baseFields, Function.comp_def]

def getOrCreateSchema (eventType : String) (columns : List String) :
    Attempt ParquetSink Schema := do
  match (← .get).storage.schemas.lookup eventType with
  | some schema =>
      if expectedSchemaNames columns ≠ schemaNames schema then
        .fail s!"schema mismatch for event type '{eventType}'"
      else return schema
  | none =>
      let schema := schemaFor columns
      .modify (fun sink => { sink with
        storage.schemas := sink.storage.schemas.insert eventType schema })
      return schema

def ensureDirectory (io : WriteIo) (eventType : String) : Attempt ParquetSink Unit := do
  if !(← .get).disk.hasDir eventType then
    .answer io.createDirAll
    .modify (fun sink => { sink with disk := sink.disk.createDirAll eventType })

def ensureWriter (io : WriteIo) (eventType : String) (schema : Schema) :
    Attempt ParquetSink Unit := do
  let sink ← .get
  if (sink.storage.writers.lookup eventType).isNone then
    let path : Path :=
      { eventType := eventType, fileName := setFileName io.timestampMillis sink.storage.fileSetId }
    .answer io.createFile
    .modify (fun sink => { sink with disk := sink.disk.create path io.flushed })
    .answer io.tryNewWriter
    .modify (fun sink => { sink with
      storage.writers := sink.storage.writers.insert eventType
        { path := path, schema := schema, rows := [] } })

/-- One-row columns of a call. -/
def arrays (call : WriteCall) : Arrays :=
  [stringArray [call.eventType], uint64Array [call.blockNumber], stringArray [call.txHash],
    uint64Array [call.logIndex]] ++ call.columns.map (fun column => stringArray [column.2])

def appendBatch (eventType : String) (batch : RecordBatch) (sink : ParquetSink) : ParquetSink :=
  match sink.storage.writers.lookup eventType with
  | some writer => { sink with
      storage.writers := sink.storage.writers.insert eventType
        { writer with rows := writer.rows ++ batch.rows } }
  | none => sink

def writeEvent (io : WriteIo) (call : WriteCall) : Attempt ParquetSink Unit := do
  let schema ← getOrCreateSchema call.eventType (call.columns.map Prod.fst)
  ensureDirectory io call.eventType
  ensureWriter io call.eventType schema
  .answer io.tryNewBatch
  let batch ← .answer (RecordBatch.tryNew schema (arrays call))
  .answer io.write
  .modify (appendBatch call.eventType batch)

def finish (sink : ParquetSink) (writer : ArrowWriter) : ParquetSink :=
  { sink with
    disk := sink.disk.put writer.path (.finished writer.table)
    closed := sink.closed ++ [writer] }

/-- Closing the drained writers in turn; a failure drops the ones not reached. -/
def closeEach (io : CloseIo) : List ((_ : String) × ArrowWriter) → Attempt ParquetSink Unit
  | [] => return
  | entry :: entries => do
      .answer (io.close entry.1)
      .modify (fun sink => finish sink entry.2)
      closeEach io entries

def closeWriters (io : CloseIo) : Attempt ParquetSink Unit := do
  let entries := iterate io.order (← .get).storage.writers
  .modify (fun sink => { sink with storage.writers := ∅ })
  closeEach io entries

def rotateWriters (io : CloseIo) : Attempt ParquetSink Unit := do
  closeWriters io
  .modify (fun sink => { sink with
    storage.fileSetId := U64.saturatingAdd sink.storage.fileSetId 1 })

end ParquetStorage

/-- A sink of decoded events: what `σ` holds, with `ω` the outside's answers to a call. -/
class EventSink (σ : Type) (ω : outParam Type) where
  writeEvent : ω → WriteCall → Attempt σ Unit
  rotate : ω → Attempt σ Unit
  close : ω → Attempt σ Unit

structure ParquetIo where
  write : WriteIo
  close : CloseIo

instance : EventSink ParquetSink ParquetIo where
  writeEvent io := ParquetStorage.writeEvent io.write
  rotate io := ParquetStorage.rotateWriters io.close
  close io := ParquetStorage.closeWriters io.close

end PolymarketIndexer
