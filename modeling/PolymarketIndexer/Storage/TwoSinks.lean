import PolymarketIndexer.Storage.Kafka
import PolymarketIndexer.Storage.Atomicity

/-! # The same events in either sink

Both sinks accept every decoded event as long as the outside goes along. A message names
the same fields as the row, in the same order, and holds the same texts; its two
numbers are those of the event when they are below `2 ^ 63`, and negative otherwise.
-/

namespace PolymarketIndexer.TwoSinks

/-- A value of a message stands for a cell of a row: numbers are compared as numbers. -/
def Reads : Avro.Value → Cell → Prop
  | .string text, .utf8 text' => text = text'
  | .long value, .uint64 number => value.toInt = number.toNat
  | _, _ => False

/-- A decoded message and a row under the names of its columns hold the same data. -/
structure SameData (record : Avro.Record) (names : List String) (row : Row) : Prop where
  names : record.map Prod.fst = names
  cells : List.Forall₂ Reads (record.map Prod.snd) row

/-- An event for both sinks, with the outside's answers. -/
structure Delivery where
  call : WriteCall
  parquet : WriteIo
  kafka : KafkaIo

/-- A decoded event, and neither the files nor the broker fail. -/
structure Delivery.Fine (delivery : Delivery) : Prop where
  event : delivery.call.OfEvent
  files : ParquetStorage.WriteIo.Succeeds delivery.parquet
  broker : delivery.kafka.send = .ok ()

variable {avro : Avro.Codec}

/-- The sinks after an event, whether they accept it or not. -/
def Delivery.toParquet (delivery : Delivery) (sink : ParquetSink) : ParquetSink :=
  ((ParquetStorage.writeEvent delivery.parquet delivery.call).run sink).2

def Delivery.toKafka (delivery : Delivery) (sink : KafkaSink avro) : KafkaSink avro :=
  ((KafkaStorage.writeEvent delivery.kafka delivery.call).run sink).2

def parquetAfter (deliveries : List Delivery) (sink : ParquetSink) : ParquetSink :=
  deliveries.foldl (fun sink delivery => delivery.toParquet sink) sink

def kafkaAfter (deliveries : List Delivery) (sink : KafkaSink avro) : KafkaSink avro :=
  deliveries.foldl (fun sink delivery => delivery.toKafka sink) sink

/-- What the sinks make of the next event: both accept it or neither does, and the message and the
row that they add to what they have hold the same data. -/
structure Agree (delivery : Delivery) (parquet : ParquetSink) (kafka : KafkaSink avro) : Prop where
  accept : (∃ p, (ParquetStorage.writeEvent delivery.parquet delivery.call).run parquet =
      (.ok (), p)) ↔
    ∃ k, (KafkaStorage.writeEvent delivery.kafka delivery.call).run kafka = (.ok (), k)
  data : ∀ p k,
    (ParquetStorage.writeEvent delivery.parquet delivery.call).run parquet = (.ok (), p) →
    (KafkaStorage.writeEvent delivery.kafka delivery.call).run kafka = (.ok (), k) →
    ∃ writer row message schema record,
      p.storage.writers.lookup delivery.call.eventType = some writer ∧
      writer.rows = ParquetStorage.heldRows delivery.call.eventType parquet ++ [row] ∧
      k.sent = kafka.sent ++ [message] ∧
      k.storage.schemas.lookup delivery.call.eventType = some schema ∧
      avro.decode schema message.payload = some record ∧
      SameData record (ParquetStorage.schemaNames writer.schema) row

/-- The sinks agree on each event of a history, each in the state that the events before left. -/
def AgreeAlong (deliveries : List Delivery) (parquet : ParquetSink) (kafka : KafkaSink avro) :
    Prop :=
  ∀ before delivery later, deliveries = before ++ delivery :: later →
    Agree delivery (parquetAfter before parquet) (kafkaAfter before kafka)

theorem cast_exact_iff (u : UInt64) : u.toInt64.toInt = u.toNat ↔ u.toNat < 2 ^ 63 := by
  have bits : u.toInt64.toInt = u.toBitVec.toInt := rfl
  have value : u.toBitVec.toNat = u.toNat := rfl
  have := u.toNat_lt
  rw [bits, BitVec.toInt_eq_toNat_cond, value]
  split <;> omega

/-- A message reads as the row of its call exactly when both numbers survive the cast. -/
theorem reads_row_iff (call : WriteCall) :
    List.Forall₂ Reads ((KafkaStorage.values call).map Prod.snd) call.row ↔
      call.blockNumber.toNat < 2 ^ 63 ∧ call.logIndex.toNat < 2 ^ 63 := by
  have columns : List.Forall₂ Reads
      ((call.columns.map (fun column => (column.1, Avro.Value.string column.2))).map Prod.snd)
      (call.columns.map (fun column => .utf8 column.2)) := by
    induction call.columns with
    | nil => exact .nil
    | cons column columns ih => exact .cons rfl ih
  rw [← cast_exact_iff, ← cast_exact_iff]
  constructor
  · rintro (_ | ⟨-, _ | ⟨block, _ | ⟨-, _ | ⟨index, -⟩⟩⟩⟩)
    exact ⟨block, index⟩
  · rintro ⟨block, index⟩
    exact .cons rfl (.cons block (.cons rfl (.cons index columns)))

section Parquet

open ParquetStorage

variable {io : WriteIo} {call : WriteCall} {sink t : ParquetSink}

/-- An accepted event is the newest row of its writer, under the names of its columns. -/
theorem written_newest (written : Written io call sink t) (event : call.OfEvent)
    (typed : ParquetStorage.Typed sink) :
    ∃ writer, t.storage.writers.lookup call.eventType = some writer ∧
      writer.rows = heldRows call.eventType sink ++ [call.row] ∧
      schemaNames writer.schema = expectedSchemaNames (call.columns.map Prod.fst) := by
  have rows : ∃ writer, t.storage.writers.lookup call.eventType = some writer ∧
      writer.rows = heldRows call.eventType sink ++ [call.row] := by
    obtain ⟨_, -, -, -, ⟨writer, before, now, -⟩ | ⟨before, now, -⟩⟩ := written.own
    · exact ⟨_, now, by rw [heldRows, before]; rfl⟩
    · exact ⟨_, now, by rw [heldRows, before]; rfl⟩
  obtain ⟨writer, now, held⟩ := rows
  refine ⟨writer, now, held, ?_⟩
  have own := (written.typed event typed).current _ writer now
  rw [own.unique (schemaOf_call event), schemaNames_schemaFor]

end Parquet

section Histories

theorem Delivery.Fine.toParquet {delivery : Delivery} (fine : delivery.Fine) {sink : ParquetSink}
    (typed : ParquetStorage.Typed sink) : ParquetStorage.Typed (delivery.toParquet sink) := by
  obtain ⟨u, done⟩ := ParquetStorage.writeEvent_total fine.files fine.event typed
  rw [Delivery.toParquet, done]
  exact (ParquetStorage.writeEvent_ok done).typed fine.event typed

theorem Delivery.Fine.toKafka {delivery : Delivery} (fine : delivery.Fine) (lawful : avro.Lawful)
    {sink : KafkaSink avro} (typed : KafkaStorage.Typed sink) :
    KafkaStorage.Typed (delivery.toKafka sink) := by
  obtain ⟨kind, name, columns⟩ := fine.event
  obtain ⟨u, message, done, -⟩ := KafkaStorage.writeEvent_run lawful typed fine.broker name columns
  rw [Delivery.toKafka, done]
  exact KafkaStorage.writeEvent_typed lawful fine.event typed done

end Histories

section Agreement

variable {delivery : Delivery} {parquet : ParquetSink} {kafka : KafkaSink avro}

/-- Whatever its numbers, both sinks accept an event. -/
theorem both_accept (lawful : avro.Lawful) (fine : delivery.Fine)
    (typed : ParquetStorage.Typed parquet) (typed' : KafkaStorage.Typed kafka) :
    (∃ p, (ParquetStorage.writeEvent delivery.parquet delivery.call).run parquet = (.ok (), p)) ∧
      ∃ k, (KafkaStorage.writeEvent delivery.kafka delivery.call).run kafka = (.ok (), k) := by
  refine ⟨ParquetStorage.writeEvent_total fine.files fine.event typed, ?_⟩
  obtain ⟨kind, name, columns⟩ := fine.event
  obtain ⟨k, message, accepted, -⟩ :=
    KafkaStorage.writeEvent_run lawful typed' fine.broker name columns
  exact ⟨k, accepted⟩

/-- The sinks agree on an event exactly when its numbers survive the cast. -/
theorem agree_iff (lawful : avro.Lawful) (fine : delivery.Fine)
    (typed : ParquetStorage.Typed parquet) (typed' : KafkaStorage.Typed kafka) :
    Agree delivery parquet kafka ↔
      delivery.call.blockNumber.toNat < 2 ^ 63 ∧ delivery.call.logIndex.toNat < 2 ^ 63 := by
  obtain ⟨⟨p, accepted⟩, k, accepted'⟩ := both_accept lawful fine typed typed'
  obtain ⟨writer, now, held, names⟩ :=
    written_newest (ParquetStorage.writeEvent_ok accepted) fine.event typed
  obtain ⟨kind, name, columns⟩ := fine.event
  obtain ⟨k', message, ran, sent, -, -, cached, read, -⟩ :=
    KafkaStorage.writeEvent_run lawful typed' fine.broker name columns
  obtain ⟨-, rfl⟩ := Prod.mk.inj (accepted'.symm.trans ran)
  rw [← reads_row_iff]
  constructor
  · rintro ⟨-, data⟩
    obtain ⟨writer', row, message', schema, record, now', held', sent', cached', read', same⟩ :=
      data p k accepted accepted'
    obtain rfl := Option.some.inj (now.symm.trans now')
    obtain rfl : delivery.call.row = row := by
      simpa using List.append_cancel_left (held.symm.trans held')
    obtain rfl : message = message' := by
      simpa using List.append_cancel_left (sent.symm.trans sent')
    obtain rfl := Option.some.inj (cached.symm.trans cached')
    obtain rfl := Option.some.inj (read.symm.trans read')
    exact same.cells
  · intro cells
    refine ⟨⟨fun _ => ⟨k, accepted'⟩, fun _ => ⟨p, accepted⟩⟩, ?_⟩
    intro p' k' done done'
    obtain ⟨-, rfl⟩ := Prod.mk.inj (accepted.symm.trans done)
    obtain ⟨-, rfl⟩ := Prod.mk.inj (accepted'.symm.trans done')
    refine ⟨writer, _, message, _, _, now, held, sent, cached, read, ⟨?_, cells⟩⟩
    rw [KafkaStorage.values_names, names]
    rfl

end Agreement

/-- Over any history of decoded events that the files and the broker take, the sinks carry the same
data exactly when every block number and log index is below `2 ^ 63`. -/
theorem sinks_agree_iff (lawful : avro.Lawful) {deliveries : List Delivery}
    (fine : ∀ delivery ∈ deliveries, delivery.Fine) (disk : Disk) (topicPrefix : String) :
    AgreeAlong deliveries (ParquetStorage.freshOn disk) (KafkaStorage.freshOn avro topicPrefix) ↔
      ∀ delivery ∈ deliveries,
        delivery.call.blockNumber.toNat < 2 ^ 63 ∧ delivery.call.logIndex.toNat < 2 ^ 63 := by
  have each : ∀ before delivery later, deliveries = before ++ delivery :: later →
      (Agree delivery (parquetAfter before (ParquetStorage.freshOn disk))
          (kafkaAfter before (KafkaStorage.freshOn avro topicPrefix)) ↔
        delivery.call.blockNumber.toNat < 2 ^ 63 ∧ delivery.call.logIndex.toNat < 2 ^ 63) := by
    intro before delivery later split
    have earlier : ∀ d ∈ before, d.Fine := fun d member =>
      fine d (by rw [split]; exact List.mem_append_left _ member)
    apply agree_iff lawful (fine delivery (by rw [split]; simp))
    · exact List.foldlRecOn _ _ (ParquetStorage.typed_freshOn disk)
        (fun _ typed d member => (earlier d member).toParquet typed)
    · exact List.foldlRecOn _ _ (KafkaStorage.typed_freshOn topicPrefix)
        (fun _ typed d member => (earlier d member).toKafka lawful typed)
  constructor
  · intro agree delivery member
    obtain ⟨before, later, split⟩ := List.append_of_mem member
    exact (each before delivery later split).mp (agree before delivery later split)
  · intro small before delivery later split
    exact (each before delivery later split).mpr (small delivery (by rw [split]; simp))

section Example

def fineFiles : WriteIo where
  timestampMillis := 0
  createDirAll := .ok ()
  createFile := .ok ()
  tryNewWriter := .ok ()
  tryNewBatch := .ok ()
  write := .ok ()

def cancelled (block : UInt64) : Delivery where
  call :=
    { eventType := "OrderCancelled"
      blockNumber := block
      txHash := "0x02"
      logIndex := 0
      columns := [("order_hash", "0x07")] }
  parquet := fineFiles
  kafka := { send := .ok () }

theorem cancelled_fine (block : UInt64) : (cancelled block).Fine where
  event := ⟨.orderCancelled, rfl, rfl⟩
  files := ⟨rfl, rfl, rfl, rfl, rfl⟩
  broker := rfl

theorem sinks_agree_small :
    AgreeAlong [cancelled 10, cancelled 11] (ParquetStorage.freshOn Disk.empty)
      (KafkaStorage.freshOn Avro.binary "polymarket") := by
  have fine : ∀ delivery ∈ [cancelled 10, cancelled 11], delivery.Fine := by
    intro delivery member
    rcases List.mem_pair.mp member with rfl | rfl
    · exact cancelled_fine 10
    · exact cancelled_fine 11
  apply (sinks_agree_iff Avro.binary_lawful fine Disk.empty "polymarket").mpr
  intro delivery member
  rcases List.mem_pair.mp member with rfl | rfl
  · exact ⟨by decide, by decide⟩
  · exact ⟨by decide, by decide⟩

/-- A block number of `2 ^ 63` arrives as a negative number. -/
theorem huge_block_differs :
    (∀ delivery ∈ [cancelled 9223372036854775808], delivery.Fine) ∧
      ¬AgreeAlong [cancelled 9223372036854775808] (ParquetStorage.freshOn Disk.empty)
        (KafkaStorage.freshOn Avro.binary "polymarket") := by
  have fine : ∀ delivery ∈ [cancelled 9223372036854775808], delivery.Fine := by
    intro delivery member
    obtain rfl := List.mem_singleton.mp member
    exact cancelled_fine _
  refine ⟨fine, fun agree => ?_⟩
  have typed := ParquetStorage.typed_freshOn Disk.empty
  have typed' := @KafkaStorage.typed_freshOn Avro.binary "polymarket"
  have small := (agree_iff Avro.binary_lawful (cancelled_fine _) typed typed').mp
    (agree [] (cancelled 9223372036854775808) [] rfl)
  exact absurd small.1 (by decide)

end Example

end PolymarketIndexer.TwoSinks
