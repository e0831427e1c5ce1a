import PolymarketIndexer.Storage.Schemas
import PolymarketIndexer.Library.Avro

/-! # The Kafka sink

Each event is sent at once, as an Avro record under the topic of its event type. The
fields are filled in by name; a `u64` is cast to a signed long. Rotating and closing do
nothing. The messages that the broker took are kept as a history.
-/

namespace PolymarketIndexer

open Unordered

structure KafkaMessage where
  topic : String
  key : String
  payload : List UInt8
  deriving DecidableEq, Repr

structure KafkaStorage where
  topicPrefix : String
  schemas : Map String Avro.Schema

/-- The storage, over an Avro library, with the messages sent so far. -/
structure KafkaSink (avro : Avro.Codec) where
  storage : KafkaStorage
  sent : List KafkaMessage

/-- What the broker answers to one `write_event`. -/
structure KafkaIo where
  send : Except String Unit

namespace KafkaStorage

variable {avro : Avro.Codec}

def new (topicPrefix : String) : KafkaStorage := { topicPrefix := topicPrefix, schemas := ∅ }

def expectedSchemaNames (columns : List String) : List String :=
  ["event_type", "block_number", "transaction_hash", "log_index"] ++ columns

def schemaFieldNames : Avro.Schema → List String
  | .record _ fields => fields.map Avro.Field.name
  | .other => []

def fieldsFor (columns : List String) : List Avro.Field :=
  [{ name := "event_type", type := .string }, { name := "block_number", type := .long },
    { name := "transaction_hash", type := .string }, { name := "log_index", type := .long }] ++
    columns.map (fun name => { name := name, type := .string })

def getOrCreateSchema (eventType : String) (columns : List String) :
    Attempt (KafkaSink avro) Avro.Schema := do
  match (← .get).storage.schemas.lookup eventType with
  | some schema =>
      if expectedSchemaNames columns ≠ schemaFieldNames schema then
        .fail s!"schema mismatch for event type '{eventType}'"
      else return schema
  | none =>
      let schema ← .answer (avro.parseStr eventType (fieldsFor columns))
      .modify (fun sink => { sink with
        storage.schemas := sink.storage.schemas.insert eventType schema })
      return schema

def topicName (storage : KafkaStorage) (eventType : String) : String :=
  s!"{storage.topicPrefix}.{eventType}"

/-- What the record is filled in with; `as i64` keeps the bits of a `u64`. -/
def values (call : WriteCall) : Avro.Record :=
  [("event_type", .string call.eventType), ("block_number", .long call.blockNumber.toInt64),
    ("transaction_hash", .string call.txHash), ("log_index", .long call.logIndex.toInt64)] ++
    call.columns.map (fun column => (column.1, .string column.2))

def buildRecord (schema : Avro.Schema) (call : WriteCall) : Except String Avro.Record :=
  let eventType := call.eventType
  match Avro.Record.new schema with
  | none => .error s!"failed to build avro record for event type '{eventType}'"
  | some record => .ok (record.putAll (values call))

def writeEvent (io : KafkaIo) (call : WriteCall) : Attempt (KafkaSink avro) Unit := do
  let schema ← getOrCreateSchema call.eventType (call.columns.map Prod.fst)
  let record ← .answer (buildRecord schema call)
  let payload ← .answer (avro.encode schema record)
  .answer io.send
  .modify (fun sink => { sink with
    sent := sink.sent ++ [{ topic := topicName sink.storage call.eventType, key := call.txHash,
                            payload := payload }] })

end KafkaStorage

instance {avro : Avro.Codec} : EventSink (KafkaSink avro) KafkaIo where
  writeEvent := KafkaStorage.writeEvent
  rotate _ := return ()
  close _ := return ()

namespace KafkaStorage

variable {avro : Avro.Codec}

def freshOn (avro : Avro.Codec) (topicPrefix : String) : KafkaSink avro :=
  { storage := new topicPrefix, sent := [] }

/-- The schema that the library makes of the columns of an event type. -/
def schemaFor (kind : EventType) : Avro.Schema :=
  .record kind.name (fieldsFor (columnNames kind))

/-- Every cached schema is that of its event type. -/
def Typed (sink : KafkaSink avro) : Prop :=
  ∀ E schema, sink.storage.schemas.lookup E = some schema →
    ∃ kind : EventType, E = kind.name ∧ schema = schemaFor kind

theorem typed_freshOn (topicPrefix : String) : Typed (freshOn avro topicPrefix) := by
  intro E schema found
  cases found

theorem fieldsFor_names (columns : List String) :
    (fieldsFor columns).map Avro.Field.name = expectedSchemaNames columns := by
  simp [fieldsFor, expectedSchemaNames, Function.comp_def]

theorem values_names (call : WriteCall) :
    (values call).map Prod.fst = expectedSchemaNames (call.columns.map Prod.fst) := by
  simp [values, expectedSchemaNames, Function.comp_def]

/-- The names that the decoder and the two sinks choose are names that Avro takes. -/
theorem wellNamed (kind : EventType) : Avro.WellNamed kind.name (fieldsFor (columnNames kind)) := by
  cases kind <;> decide +kernel

/-- A call's values fit the schema of its columns. -/
theorem values_fit (call : WriteCall) :
    List.Forall₂ Avro.Fits (fieldsFor (call.columns.map Prod.fst)) (values call) := by
  have columns : List.Forall₂ Avro.Fits
      ((call.columns.map Prod.fst).map (fun name => { name := name, type := .string }))
      (call.columns.map (fun column => (column.1, .string column.2))) := by
    induction call.columns with
    | nil => exact .nil
    | cons column columns ih => exact .cons ⟨rfl, trivial⟩ ih
  exact .cons ⟨rfl, trivial⟩ (.cons ⟨rfl, trivial⟩ (.cons ⟨rfl, trivial⟩ (.cons ⟨rfl, trivial⟩ columns)))

section Write

variable {io : KafkaIo} {call : WriteCall} {sink t : KafkaSink avro}

theorem buildRecord_ok {kind : EventType} (columns : call.columns.map Prod.fst = columnNames kind) :
    buildRecord (schemaFor kind) call = .ok (values call) := by
  have filled := @Avro.Record.putAll_new kind.name (fieldsFor (columnNames kind)) (values call)
    (by rw [values_names, fieldsFor_names, columns]) (wellNamed kind).distinct
  unfold buildRecord schemaFor
  cases made : Avro.Record.new (.record kind.name (fieldsFor (columnNames kind))) with
  | none => cases made
  | some record =>
      rw [made] at filled
      exact congrArg Except.ok (Option.some.inj filled)

/-- The schema of a decoded event is there or can be made. -/
theorem getOrCreateSchema_run (lawful : avro.Lawful) (typed : Typed sink) {kind : EventType} :
    ∃ t, (getOrCreateSchema kind.name (columnNames kind)).run sink = (.ok (schemaFor kind), t) ∧
      t.sent = sink.sent ∧ t.storage.topicPrefix = sink.storage.topicPrefix ∧
      t.storage.schemas.lookup kind.name = some (schemaFor kind) ∧ Typed t := by
  rw [getOrCreateSchema, Attempt.run_bind_ok (Attempt.run_get sink)]
  cases found : sink.storage.schemas.lookup kind.name with
  | some schema =>
      obtain ⟨kind', name, rfl⟩ := typed _ _ found
      obtain rfl := EventType.name_injective name
      refine ⟨sink, ?_, rfl, rfl, found, typed⟩
      simp only [schemaFor, schemaFieldNames, fieldsFor_names, ne_eq, not_true_eq_false, if_false,
        Attempt.run_pure]
  | none =>
      have parsed := lawful.parses _ _ (wellNamed kind)
      simp only
      rw [parsed, Attempt.run_bind_ok (Attempt.run_answer _ sink),
        Attempt.run_bind_ok (Attempt.run_modify _ sink)]
      refine ⟨_, rfl, rfl, rfl, AList.lookup_insert _, ?_⟩
      intro E schema lookup
      by_cases same : E = kind.name
      · subst same
        obtain rfl := Option.some.inj ((AList.lookup_insert _).symm.trans lookup)
        exact ⟨kind, rfl, rfl⟩
      · exact typed E schema ((AList.lookup_insert_ne same).symm.trans lookup)

/-- What a write of a decoded event does when the broker takes the message. -/
theorem writeEvent_run (lawful : avro.Lawful) (typed : Typed sink) (sends : io.send = .ok ())
    {kind : EventType} (name : call.eventType = kind.name)
    (columns : call.columns.map Prod.fst = columnNames kind) :
    ∃ t message, (writeEvent io call).run sink = (.ok (), t) ∧
      t.sent = sink.sent ++ [message] ∧
      message.topic = topicName sink.storage call.eventType ∧ message.key = call.txHash ∧
      t.storage.schemas.lookup call.eventType = some (schemaFor kind) ∧
      avro.decode (schemaFor kind) message.payload = some (values call) ∧
      t.storage.topicPrefix = sink.storage.topicPrefix ∧ Typed t := by
  obtain ⟨u, cached, sent, topics, found, typed'⟩ := @getOrCreateSchema_run _ sink lawful typed kind
  obtain ⟨payload, written, read⟩ := lawful.reads kind.name (fieldsFor (columnNames kind))
    (values call) (by rw [← columns]; exact values_fit call)
  rw [← columns, ← name] at cached
  rw [writeEvent, Attempt.run_bind_ok cached, buildRecord_ok columns,
    Attempt.run_bind_ok (Attempt.run_answer _ u), schemaFor, written,
    Attempt.run_bind_ok (Attempt.run_answer _ u), sends,
    Attempt.run_bind_ok (Attempt.run_answer _ u)]
  refine ⟨_, { topic := topicName sink.storage call.eventType, key := call.txHash,
               payload := payload }, rfl, ?_, rfl, rfl, ?_, read, topics, typed'⟩
  · simp only [topicName, ← topics, ← sent]
  · rw [name]
    exact found

/-- A write that went through has changed the cache at most by the schema it asked for. -/
theorem writeEvent_ok (done : (writeEvent io call).run sink = (.ok (), t)) :
    ∃ schema u, (getOrCreateSchema call.eventType (call.columns.map Prod.fst)).run sink =
        (.ok schema, u) ∧ t.storage = u.storage ∧ io.send = .ok () := by
  obtain ⟨schema, u, cached, rest⟩ := Attempt.bind_ok done
  refine ⟨schema, u, cached, ?_⟩
  obtain ⟨record, u₁, built, rest⟩ := Attempt.bind_ok rest
  obtain ⟨payload, u₂, written, rest⟩ := Attempt.bind_ok rest
  obtain ⟨_, u₃, sent, rest⟩ := Attempt.bind_ok rest
  obtain ⟨-, rfl⟩ := Prod.mk.inj built
  obtain ⟨-, rfl⟩ := Prod.mk.inj written
  obtain ⟨taken, rfl⟩ := Prod.mk.inj sent
  obtain ⟨-, rfl⟩ := Prod.mk.inj rest
  exact ⟨rfl, taken⟩

theorem writeEvent_typed (lawful : avro.Lawful) (event : call.OfEvent) (typed : Typed sink)
    (done : (writeEvent io call).run sink = (.ok (), t)) : Typed t := by
  obtain ⟨kind, name, columns⟩ := event
  obtain ⟨schema, u, cached, storage, -⟩ := writeEvent_ok done
  obtain ⟨u', cached', -, -, -, after⟩ := @getOrCreateSchema_run _ sink lawful typed kind
  rw [name, columns] at cached
  obtain ⟨-, rfl⟩ := Prod.mk.inj (cached.symm.trans cached')
  intro E schema' lookup
  exact after E schema' (by rw [← storage]; exact lookup)

end Write

end KafkaStorage

end PolymarketIndexer
