import PolymarketIndexer.Frontfill.Success
import PolymarketIndexer.Storage.TwoSinks
import PolymarketIndexer.Backfill.Confluence

/-! # One set of column names for each event type

The decoder pairs each value with its column name, but nothing after it carries the
pairs. A backfill keeps the names of the first row of a group, and the Parquet sink
those of its cached schema. Both are right because the event type of a decoded log
fixes its names: they are the same for any two of its logs, different from each other and from
the four base fields.
-/

namespace PolymarketIndexer

/-- The cells of a call under the names of its columns. -/
def WriteCall.named (call : WriteCall) : List (String × Cell) :=
  [("event_type", .utf8 call.eventType), ("block_number", .uint64 call.blockNumber),
    ("transaction_hash", .utf8 call.txHash), ("log_index", .uint64 call.logIndex)] ++
    call.columns.map (fun column => (column.1, .utf8 column.2))

/-- The rows of a table under the names of its schema. -/
def Table.named (table : Table) : List (List (String × Cell)) :=
  table.rows.map (fun row => (table.schema.fields.map Field.name).zip row)

/-- The call for a log that decodes and has its metadata. -/
def logCall (alloy : Alloy) (log : Log) : Option WriteCall :=
  match decodeLog alloy log, log.blockNumber, log.transactionHash, log.logIndex with
  | .ok (some decoded), some blockNumber, some txHash, some logIndex =>
      some { eventType := decoded.eventType, blockNumber := blockNumber,
             txHash := alloy.hashToString txHash, logIndex := logIndex,
             columns := decoded.columns }
  | _, _, _, _ => none

def baseNames : List String := ["event_type", "block_number", "transaction_hash", "log_index"]

theorem columnNames_distinct (kind : EventType) : (baseNames ++ columnNames kind).Nodup := by
  have distinct := (KafkaStorage.wellNamed kind).distinct
  rw [KafkaStorage.fieldsFor_names] at distinct
  exact distinct

theorem row_named (call : WriteCall) :
    (ParquetStorage.expectedSchemaNames (call.columns.map Prod.fst)).zip call.row = call.named := by
  have columns := @List.zip_map' _ _ _ Prod.fst (fun column : String × String => Cell.utf8 column.2)
    call.columns
  simp only [ParquetStorage.expectedSchemaNames, WriteCall.row, WriteCall.named,
    List.cons_append, List.nil_append, List.zip_cons_cons, columns]

section Live

open Frontfill

theorem kafka_kept {avro : Avro.Codec} (lawful : avro.Lawful) :
    Kept (KafkaSink avro) KafkaStorage.Typed where
  write _ _ _ _ event before done := KafkaStorage.writeEvent_typed lawful event before done
  rotate _ _ _ before done := by
    obtain ⟨-, rfl⟩ := Prod.mk.inj done
    exact before
  close _ _ _ before done := by
    obtain ⟨-, rfl⟩ := Prod.mk.inj done
    exact before

/-- What holds of the sink when a run is about to write, and of the event it is about to write. -/
theorem writing_kept {σ ω : Type} [EventSink σ ω] {config : FrontfillConfig} {alloy : Alloy}
    {P : σ → Prop} (kept : Kept σ P) {sink : σ} (initial : P sink)
    {runtime : Except String FrontfillMetrics} {start s : State σ ω} {inputs : List (Input ω)}
    (launched : launch config (.ok sink) runtime = .ok start)
    (run : Machine.exec (step config alloy) start inputs = some s) {taken : Taken}
    {decoded : DecodedEvent} (writing : s.phase = .writing taken decoded) :
    P s.sink ∧ (taken.call decoded).OfEvent := by
  refine ⟨run_keeps kept initial launched run (.inl (by rw [writing]; rfl)), ?_⟩
  exact writing_ofEvent (run_ingested launched run) writing

end Live

section Backfill

open Backfill

variable {alloy : Alloy} {logs : List Log} {E : String} {columns : List String}
  {rows : List EventRow}

theorem eventRow_named {kind : EventType} (name : E = kind.name) (log : Log) :
    (eventRow? alloy E log).map (fun row =>
        (ParquetStorage.expectedSchemaNames (columnNames kind)).zip (row.cells E)) =
      ((logCall alloy log).filter (fun call => call.eventType = E)).map WriteCall.named := by
  unfold eventRow? Backfill.read logCall
  rcases isDecoded : decodeLog alloy log with e | _ | decoded
  · rfl
  · rfl
  · rcases log.blockNumber with _ | blockNumber
    · rfl
    · rcases log.transactionHash with _ | txHash
      · rfl
      · rcases log.logIndex with _ | logIndex
        · rfl
        · by_cases same : decoded.eventType = E
          · obtain ⟨kind', -, name', names⟩ := decodeLog_some isDecoded
            obtain rfl : kind = kind' :=
              EventType.name_injective (name.symm.trans (same.symm.trans name'))
            subst same
            have own := row_named ⟨decoded.eventType, blockNumber, alloy.hashToString txHash,
              logIndex, decoded.columns⟩
            simp only [if_true, Option.map_some, Option.filter_some, decide_true, ← own, names,
              EventRow.cells, WriteCall.row, List.map_map]
            rfl
          · simp [same]

/-- The file of a group has the cells of its logs, each under the name the decoder gave it. -/
theorem group_named (found : (group alloy logs).byEvent.lookup E = some (columns, rows)) :
    (fileTable E columns (sortRows rows)).named.Perm
      (((logs.filterMap (logCall alloy)).filter (fun call => call.eventType = E)).map
        WriteCall.named) := by
  obtain ⟨rfl, -, kind, name, rfl⟩ := group_entry found
  have fields : (parquetFields (columnNames kind)).map Field.name =
      ParquetStorage.expectedSchemaNames (columnNames kind) := by
    simp [parquetFields, ParquetStorage.expectedSchemaNames, Function.comp_def]
  have sorted := (List.perm_insertionSort rowLe (eventRows alloy E logs)).map (fun row =>
    (ParquetStorage.expectedSchemaNames (columnNames kind)).zip (row.cells E))
  have asCalls : (eventRows alloy E logs).map (fun row =>
        (ParquetStorage.expectedSchemaNames (columnNames kind)).zip (row.cells E)) =
      ((logs.filterMap (logCall alloy)).filter (fun call => call.eventType = E)).map
        WriteCall.named := by
    rw [eventRows, List.map_filterMap, List.filter_filterMap, List.map_filterMap]
    exact List.filterMap_congr (fun log _ => eventRow_named name log)
  rw [← asCalls]
  simp only [Table.named, fileTable, fields, List.map_map]
  exact sorted

/-- Writing a group's file never indexes a row out of range, and a file that was written holds the
group. -/
theorem group_written (found : (group alloy logs).byEvent.lookup E = some (columns, rows))
    (io : FileIo) (chunk : Chunk) (out : Output) :
    ((writeParquetFile io E columns (sortRows rows) chunk).run out).1 ≠ .ok .panicked ∧
      ∀ out', (writeParquetFile io E columns (sortRows rows) chunk).run out = (.ok .done, out') →
        out'.disk.file (chunkPath E chunk) =
          some (.finished (fileTable E columns (sortRows rows))) := by
  have fits : ∀ row ∈ sortRows rows, row.values.length = columns.length :=
    fun row member => group_fits found row (sortRows_mem.mp member)
  obtain ⟨after, run, file, -⟩ := @writeParquetFile_run io E columns (sortRows rows) chunk out fits
    _ rfl
  rw [run]
  constructor
  · intro panicked
    split at panicked
    · cases panicked
    · cases panicked
  · intro out' done
    cases failed : io.outcome.error? with
    | some error =>
        simp only [failed] at done
        cases done
    | none =>
        obtain ⟨-, rfl⟩ := Prod.mk.inj done
        rw [file]
        simp only [Job.apply, outcome_error_iff.mp failed, if_true]

end Backfill

open Frontfill Backfill in
/-- Decoder and writers agree on the columns of every event type. -/
structure SchemaDiscipline (alloy : Alloy) (avro : Avro.Codec) : Prop where
  columns : ∀ log log' decoded decoded', decodeLog alloy log = .ok (some decoded) →
    decodeLog alloy log' = .ok (some decoded') → decoded.eventType = decoded'.eventType →
    decoded.columns.map Prod.fst = decoded'.columns.map Prod.fst
  distinct : ∀ log decoded, decodeLog alloy log = .ok (some decoded) →
    (decoded.columns.map Prod.fst).Nodup ∧ baseNames.Disjoint (decoded.columns.map Prod.fst)
  parquet : ∀ config runtime disk start inputs s taken decoded,
    launch config (.ok (ParquetStorage.freshOn disk)) runtime = .ok start →
    Machine.exec (step config alloy) start inputs = some s → s.phase = .writing taken decoded →
    (∃ schema t, (ParquetStorage.getOrCreateSchema decoded.eventType
        (decoded.columns.map Prod.fst)).run s.sink = (.ok schema, t)) ∧
    ∀ io t, (ParquetStorage.writeEvent io (taken.call decoded)).run s.sink = (.ok (), t) →
      ∃ writer row, t.storage.writers.lookup decoded.eventType = some writer ∧
        writer.rows = ParquetStorage.heldRows decoded.eventType s.sink ++ [row] ∧
        (ParquetStorage.schemaNames writer.schema).zip row = (taken.call decoded).named
  kafka : ∀ config runtime topicPrefix start inputs s taken decoded,
    launch config (.ok (KafkaStorage.freshOn avro topicPrefix)) runtime = .ok start →
    Machine.exec (step config alloy) start inputs = some s → s.phase = .writing taken decoded →
    (∃ schema t, (KafkaStorage.getOrCreateSchema decoded.eventType
        (decoded.columns.map Prod.fst)).run s.sink = (.ok schema, t)) ∧
    ∀ io t, (KafkaStorage.writeEvent io (taken.call decoded)).run s.sink = (.ok (), t) →
      ∃ message schema, t.sent = s.sink.sent ++ [message] ∧
        t.storage.schemas.lookup decoded.eventType = some schema ∧
        avro.decode schema message.payload = some (KafkaStorage.values (taken.call decoded))
  fits : ∀ logs E columns rows, (group alloy logs).byEvent.lookup E = some (columns, rows) →
    (∀ row ∈ rows, row.values.length = columns.length) ∧
    ∀ io chunk out,
      ((writeParquetFile io E columns (sortRows rows) chunk).run out).1 ≠ .ok .panicked
  cells : ∀ logs E columns rows, (group alloy logs).byEvent.lookup E = some (columns, rows) →
    ∀ io chunk out out',
      (writeParquetFile io E columns (sortRows rows) chunk).run out = (.ok .done, out') →
      ∃ table, out'.disk.file (chunkPath E chunk) = some (.finished table) ∧
        table.named.Perm (((logs.filterMap (logCall alloy)).filter
          (fun call => call.eventType = E)).map WriteCall.named)

theorem schema_discipline (alloy : Alloy) {avro : Avro.Codec} (lawful : avro.Lawful) :
    SchemaDiscipline alloy avro where
  columns log log' decoded decoded' isDecoded isDecoded' same := by
    obtain ⟨kind, -, name, names⟩ := decodeLog_some isDecoded
    obtain ⟨kind', -, name', names'⟩ := decodeLog_some isDecoded'
    obtain rfl := EventType.name_injective (name.symm.trans (same.trans name'))
    exact names.trans names'.symm
  distinct log decoded isDecoded := by
    obtain ⟨kind, -, -, names⟩ := decodeLog_some isDecoded
    obtain ⟨-, own, apart⟩ := List.nodup_append'.mp (columnNames_distinct kind)
    rw [names]
    exact ⟨own, apart⟩
  parquet config runtime disk start inputs s taken decoded launched run writing := by
    obtain ⟨typed, event⟩ := writing_kept Frontfill.typed_kept (ParquetStorage.typed_freshOn disk)
      launched run writing
    obtain ⟨t, got⟩ := ParquetStorage.getOrCreateSchema_total event typed
    refine ⟨⟨_, t, got⟩, fun io t done => ?_⟩
    obtain ⟨writer, now, held, names⟩ :=
      TwoSinks.written_newest (ParquetStorage.writeEvent_ok done) event typed
    refine ⟨writer, _, now, held, ?_⟩
    rw [names]
    exact row_named _
  kafka config runtime topicPrefix start inputs s taken decoded launched run writing := by
    obtain ⟨typed, kind, name, names⟩ := writing_kept (kafka_kept lawful)
      (KafkaStorage.typed_freshOn topicPrefix) launched run writing
    obtain ⟨t, got, -⟩ := @KafkaStorage.getOrCreateSchema_run _ s.sink lawful typed kind
    rw [← name, ← names] at got
    refine ⟨⟨_, t, got⟩, fun io u done => ?_⟩
    obtain ⟨_, _, -, -, sends⟩ := KafkaStorage.writeEvent_ok done
    obtain ⟨u', message, ran, sent, -, -, cached, read, -⟩ :=
      KafkaStorage.writeEvent_run lawful typed sends name names
    obtain ⟨-, rfl⟩ := Prod.mk.inj (done.symm.trans ran)
    exact ⟨message, _, sent, cached, read⟩
  fits logs E columns rows found :=
    ⟨Backfill.group_fits found, fun io chunk out => (group_written found io chunk out).1⟩
  cells logs E columns rows found io chunk out out' done :=
    ⟨_, (group_written found io chunk out).2 out' done, group_named found⟩

theorem schema_discipline_reference : SchemaDiscipline Reference.alloy Avro.binary :=
  schema_discipline Reference.alloy Avro.binary_lawful

end PolymarketIndexer
