import PolymarketIndexer.Frontfill.Sinks
import PolymarketIndexer.Storage.Kafka

/-! # The stream that a run leaves with the broker

A consumer knows the prefix and the event types. From a message it gets the call that was written:
the topic says which schema to read with, and a long read back as a `u64` is the `u64` that was
cast to it. So the messages of a run are the calls of its logs, one each, in order.
-/

namespace PolymarketIndexer

namespace KafkaConsumer

def readColumn : String × Avro.Value → Option (String × String)
  | (name, .string text) => some (name, text)
  | _ => none

def readCall : Avro.Record → Option WriteCall
  | (_, .string eventType) :: (_, .long blockNumber) :: (_, .string txHash) ::
      (_, .long logIndex) :: columns =>
      (columns.mapM readColumn).map (fun columns => {
        eventType := eventType, blockNumber := blockNumber.toUInt64, txHash := txHash,
        logIndex := logIndex.toUInt64, columns := columns })
  | _ => none

/-- The event type of a topic. -/
def eventOf (topicPrefix topic : String) : Option EventType :=
  EventType.all.find? (fun kind => s!"{topicPrefix}.{kind.name}" == topic)

/-- What a message says, with its key. -/
def consume (avro : Avro.Codec) (topicPrefix : String) (message : KafkaMessage) :
    Option (String × WriteCall) := do
  let kind ← eventOf topicPrefix message.topic
  let record ← avro.decode (KafkaStorage.schemaFor kind) message.payload
  let call ← readCall record
  return (message.key, call)

theorem readColumns_values (columns : List (String × String)) :
    (columns.map (fun column => (column.1, Avro.Value.string column.2))).mapM readColumn =
      some columns := by
  induction columns with
  | nil => rfl
  | cons column columns ih =>
      rw [List.map_cons, List.mapM_cons, ih]
      rfl

/-- A call is read back from its values, whatever its numbers are. -/
theorem readCall_values (call : WriteCall) : readCall (KafkaStorage.values call) = some call := by
  simp only [KafkaStorage.values, List.cons_append, List.nil_append, readCall, readColumns_values,
    Option.map_some, UInt64.toUInt64_toInt64]

theorem topic_injective {topicPrefix : String} {kind other : EventType}
    (same : s!"{topicPrefix}.{kind.name}" = s!"{topicPrefix}.{other.name}") : kind = other := by
  have letters := congrArg String.toList same
  simp only [String.toList_append, List.append_assoc, List.append_cancel_left_eq] at letters
  exact EventType.name_injective (String.toList_inj.mp letters)

theorem eventOf_topic (topicPrefix : String) (kind : EventType) :
    eventOf topicPrefix s!"{topicPrefix}.{kind.name}" = some kind := by
  unfold eventOf
  cases found : EventType.all.find? (fun other =>
      s!"{topicPrefix}.{other.name}" == s!"{topicPrefix}.{kind.name}") with
  | none =>
      have absent := List.find?_eq_none.mp found kind (EventType.mem_all kind)
      exact absurd (beq_self_eq_true _) absent
  | some other =>
      have matches_ := List.find?_some found
      exact congrArg some (topic_injective (beq_iff_eq.mp matches_))

end KafkaConsumer

namespace KafkaStorage

variable {avro : Avro.Codec} {io : KafkaIo} {call : WriteCall} {sink t : KafkaSink avro}

/-- The sink of a run that has written these calls. -/
structure Published (topicPrefix : String) (calls : List WriteCall) (sink : KafkaSink avro) :
    Prop where
  consumed : sink.sent.map (KafkaConsumer.consume avro topicPrefix) =
    calls.map (fun call => some (call.txHash, call))
  typed : Typed sink
  topics : sink.storage.topicPrefix = topicPrefix

/-- A decoded event is refused by nobody but the broker. -/
theorem writeEvent_refused (lawful : avro.Lawful) (typed : Typed sink) {error : String}
    (sends : io.send = .error error) (event : call.OfEvent) :
    ∃ t, (writeEvent io call).run sink = (.error error, t) ∧ t.sent = sink.sent ∧
      t.storage.topicPrefix = sink.storage.topicPrefix ∧ Typed t := by
  obtain ⟨kind, name, columns⟩ := event
  obtain ⟨u, cached, sent, topics, -, typed'⟩ := @getOrCreateSchema_run _ sink lawful typed kind
  obtain ⟨payload, written, -⟩ := lawful.reads kind.name (fieldsFor (columnNames kind))
    (values call) (by rw [← columns]; exact values_fit call)
  rw [← columns, ← name] at cached
  refine ⟨u, ?_, sent, topics, typed'⟩
  rw [writeEvent, Attempt.run_bind_ok cached, buildRecord_ok columns,
    Attempt.run_bind_ok (Attempt.run_answer _ u), schemaFor, written,
    Attempt.run_bind_ok (Attempt.run_answer _ u), sends,
    Attempt.run_bind_error (Attempt.run_answer _ u)]

theorem Published.write {topicPrefix : String} {calls : List WriteCall} (lawful : avro.Lawful)
    (published : Published topicPrefix calls sink) (event : call.OfEvent)
    (done : (writeEvent io call).run sink = (.ok (), t)) :
    Published topicPrefix (calls ++ [call]) t := by
  obtain ⟨-, -, -, -, sends⟩ := writeEvent_ok done
  obtain ⟨kind, name, columns⟩ := event
  obtain ⟨u, message, run, sent, topic, key, -, read, topics, typed⟩ :=
    writeEvent_run lawful published.typed sends name columns
  obtain ⟨-, rfl⟩ := Prod.mk.inj (done.symm.trans run)
  refine ⟨?_, typed, topics.trans published.topics⟩
  have consumed : KafkaConsumer.consume avro topicPrefix message = some (call.txHash, call) := by
    have asked : KafkaConsumer.eventOf topicPrefix message.topic = some kind := by
      rw [topic, topicName, published.topics, name]
      exact KafkaConsumer.eventOf_topic topicPrefix kind
    simp only [KafkaConsumer.consume, asked, read, KafkaConsumer.readCall_values, key,
      Option.bind_eq_bind, Option.bind_some, Option.pure_def]
  rw [sent, List.map_append, List.map_append, published.consumed, List.map_singleton,
    List.map_singleton, consumed]

/-- A write that fails has sent nothing, and the error is the broker's. -/
theorem Published.fail {topicPrefix : String} {calls : List WriteCall} {error : String}
    (lawful : avro.Lawful) (published : Published topicPrefix calls sink) (event : call.OfEvent)
    (failed : (writeEvent io call).run sink = (.error error, t)) :
    io.send = .error error ∧ Published topicPrefix calls t := by
  cases sends : io.send with
  | ok =>
      obtain ⟨kind, name, columns⟩ := event
      obtain ⟨u, message, run, -⟩ := writeEvent_run lawful published.typed sends name columns
      cases (Prod.mk.inj (failed.symm.trans run)).1
  | error error' =>
      obtain ⟨u, run, sent, topics, typed⟩ :=
        writeEvent_refused lawful published.typed sends event
      obtain ⟨same, rfl⟩ := Prod.mk.inj (failed.symm.trans run)
      obtain rfl := Except.error.inj same
      exact ⟨rfl, by rw [sent]; exact published.consumed, typed, topics.trans published.topics⟩

end KafkaStorage

namespace Frontfill

open KafkaStorage

variable {avro : Avro.Codec} {config : FrontfillConfig} {alloy : Alloy} {topicPrefix : String}
  {s t : State (KafkaSink avro) KafkaIo} {input : Input KafkaIo}

/-- What a run has left with the broker, after these inputs. -/
structure Broadcast (topicPrefix : String) (alloy : Alloy) (past : List (Input KafkaIo))
    (s : State (KafkaSink avro) KafkaIo) : Prop where
  ingested : Ingested alloy s
  published : Published topicPrefix s.written s.sink
  refusals : ∀ error, .sinkFailed error ∈ s.trace → ∃ io, .sink io ∈ past ∧ io.send = .error error

theorem step_published (lawful : avro.Lawful) (ingested : Ingested alloy s)
    (published : Published topicPrefix s.written s.sink)
    (moved : step config alloy s input = some t) : Published topicPrefix t.written t.sink := by
  have same : ∀ {u : State (KafkaSink avro) KafkaIo}, u.written = s.written → u.sink = s.sink →
      Published topicPrefix u.written u.sink := by
    intro u written sink
    rw [written, sink]
    exact published
  cases step_moves moved with
  | quiet sink trace => exact same (by rw [State.written, trace]; rfl) sink
  | refused => exact same (by simp [State.written, Effect.call?]) rfl
  | took => exact same (by simp [State.written, Effect.call?]) (take_sink _ _ _)
  | decided locking early sink trace =>
      exact same (by simp [State.written, trace]) ((decode_sink _ _ _).trans sink)
  | rotated rotating call trace =>
      exact same (by simp [State.written, trace, Effect.call?])
        ((decode_sink _ _ _).trans (Prod.mk.inj call).2.symm)
  | @wrote _ taken decoded io writing call trace =>
      have written : t.written = s.written ++ [taken.call decoded] := by
        simp [State.written, trace, Effect.call?]
      rw [written]
      exact published.write lawful (writing_ofEvent ingested writing) call
  | writeFailed writing call trace =>
      have written : t.written = s.written := by
        simp [State.written, trace, Effect.call?]
      rw [written]
      exact (published.fail lawful (writing_ofEvent ingested writing) call).2
  | closed closing call trace =>
      exact same (by simp [State.written, trace, Effect.call?]) (Prod.mk.inj call).2.symm
  | rotateFailed rotating call => cases (Prod.mk.inj call).1
  | closeFailed closing call => cases (Prod.mk.inj call).1

theorem step_refusals {past : List (Input KafkaIo)} (lawful : avro.Lawful)
    (broadcast : Broadcast topicPrefix alloy past s)
    (moved : step config alloy s input = some t) :
    ∀ error, .sinkFailed error ∈ t.trace →
      ∃ io, .sink io ∈ past ++ [input] ∧ io.send = .error error := by
  have earlier : ∀ error, .sinkFailed error ∈ s.trace →
      ∃ io, .sink io ∈ past ++ [input] ∧ io.send = .error error := by
    intro error failed
    obtain ⟨io, member, sends⟩ := broadcast.refusals error failed
    exact ⟨io, List.mem_append_left _ member, sends⟩
  intro error failed
  cases step_moves moved with
  | quiet sink trace => exact earlier error (trace ▸ failed)
  | refused | took => exact earlier error (by simpa using failed)
  | decided locking early sink trace => exact earlier error (by simpa [trace] using failed)
  | rotated rotating call trace => exact earlier error (by simpa [trace] using failed)
  | wrote writing call trace => exact earlier error (by simpa [trace] using failed)
  | closed closing call trace => exact earlier error (by simpa [trace] using failed)
  | @writeFailed _ taken decoded io error' writing call trace =>
      rw [trace, List.mem_append, List.mem_singleton] at failed
      rcases failed with before | now
      · exact earlier error before
      · obtain rfl := Effect.sinkFailed.inj now
        have event := writing_ofEvent broadcast.ingested writing
        obtain ⟨sends, -⟩ := broadcast.published.fail lawful event call
        exact ⟨io, by simp, sends⟩
  | rotateFailed rotating call => cases (Prod.mk.inj call).1
  | closeFailed closing call => cases (Prod.mk.inj call).1

theorem run_broadcast (lawful : avro.Lawful) {runtime : Except String FrontfillMetrics}
    {inputs : List (Input KafkaIo)}
    (start : launch config (.ok (freshOn avro topicPrefix)) runtime = .ok s)
    (run : Machine.exec (step config alloy) s inputs = some t) :
    Broadcast topicPrefix alloy inputs t := by
  obtain ⟨-, sink, -, trace, -⟩ := launch_start start
  have first : Broadcast topicPrefix alloy [] s := by
    refine ⟨@run_ingested _ _ config alloy _ _ _ _ _ [] start rfl, ?_, ?_⟩
    · rw [State.written, trace, ← Except.ok.inj sink]
      exact ⟨rfl, typed_freshOn topicPrefix, rfl⟩
    · intro error failed
      rw [trace] at failed
      cases failed
  refine Machine.exec_history (step config alloy) ?_ run first
  exact fun past _ _ _ before moved => ⟨step_ingested before.ingested moved,
    step_published lawful before.ingested before.published moved,
    step_refusals lawful before moved⟩

/-- Over Kafka a consumer reads, at any moment of any run, one message for each log received
that decodes, in the order they came and with nothing changed, but for the last log while it is in
hand or when it failed. No call of a run is refused by the sink itself. -/
theorem broker_holds_the_log (lawful : avro.Lawful) {runtime : Except String FrontfillMetrics}
    {inputs : List (Input KafkaIo)}
    (start : launch config (.ok (freshOn avro topicPrefix)) runtime = .ok s)
    (run : Machine.exec (step config alloy) s inputs = some t) :
    (∃ done calls, done <+: t.received ∧ t.received.length ≤ done.length + 1 ∧
      Feed.feed (outcome alloy) done = (calls, none) ∧
      t.sink.sent.map (KafkaConsumer.consume avro topicPrefix) =
        calls.map (fun call => some (call.txHash, call))) ∧
    (t.phase.inHand = none → t.phase.result? = none ∨ t.phase.result? = some (.ok ()) →
      ∃ calls, Feed.feed (outcome alloy) t.received = (calls, none) ∧
        t.sink.sent.map (KafkaConsumer.consume avro topicPrefix) =
          calls.map (fun call => some (call.txHash, call))) ∧
    ∀ error, .sinkFailed error ∈ t.trace →
      ∃ io, .sink io ∈ inputs ∧ io.send = .error error := by
  have broadcast := run_broadcast lawful start run
  obtain ⟨done, front, almost, fine⟩ := run_heard start run
  refine ⟨⟨done, t.written, front, almost, fine, broadcast.published.consumed⟩, ?_,
    broadcast.refusals⟩
  intro free goesOn
  exact ⟨t.written, broadcast.ingested.free free goesOn, broadcast.published.consumed⟩

section Example

def kafkaStart : State (KafkaSink Avro.binary) KafkaIo where
  phase := .starting
  reconnectAttempt := 0
  nextRotationBlock := none
  metrics := none
  sink := freshOn Avro.binary "polymarket"
  handlerInstalled := false
  signalled := false
  trace := []

def kafkaInputs (log : Log) : List (Input KafkaIo) :=
  [.connect, .connected (.ok ()), .subscribed (.ok ()), .next (some log), .lock,
    .sink { send := .ok () }]

/-- A block number that is negative as a signed long. -/
def hugeLog : Log := cancelled 9223372036854775808 0

theorem broker_holds_the_log_huge : ∃ t calls,
    Machine.exec (step liveConfig Reference.alloy) kafkaStart (kafkaInputs hugeLog) = some t ∧
    Feed.feed (outcome Reference.alloy) [hugeLog] = (calls, none) ∧
    calls.map WriteCall.blockNumber = [9223372036854775808] ∧
    t.sink.sent.map (KafkaConsumer.consume Avro.binary "polymarket") =
      calls.map (fun call => some (call.txHash, call)) := by
  obtain ⟨filter, filters⟩ := buildFilter_ok Reference.addresses_parse liveConfig.startBlock
  have connects : buildWsConnect liveConfig = .ok _ := rfl
  have start : launch liveConfig (.ok (freshOn Avro.binary "polymarket")) (.error "disabled") =
      .ok kafkaStart := rfl
  have heard : ∀ {β : Type} (f : State (KafkaSink Avro.binary) KafkaIo → β),
      (Machine.exec (step liveConfig Reference.alloy) kafkaStart (kafkaInputs hugeLog)).map f =
        (Machine.exec (step liveConfig Reference.alloy) { kafkaStart with phase := .selecting none }
          [.next (some hugeLog), .lock, .sink { send := .ok () }]).map f := by
    intro β f
    simp only [kafkaInputs, Machine.exec, step, reconnectStep, kafkaStart, connects, filters,
      Option.bind_some]
    rfl
  have returns : (Machine.exec (step liveConfig Reference.alloy) kafkaStart
      (kafkaInputs hugeLog)).isSome := by
    rw [← Option.isSome_map, heard (fun t => t.phase.inHand)]
    rfl
  obtain ⟨t, run⟩ := Option.isSome_iff_exists.mp returns
  have phase : t.phase = .selecting none := seen State.phase run (heard State.phase)
  have received : t.received = [hugeLog] := seen State.received run (heard State.received)
  obtain ⟨-, settled, -⟩ := broker_holds_the_log Avro.binary_lawful start run
  obtain ⟨calls, fed, consumed⟩ := settled (by rw [phase]; rfl) (.inl (by rw [phase]; rfl))
  rw [received] at fed
  have blocks : (Feed.feed (outcome Reference.alloy) [hugeLog]).1.map WriteCall.blockNumber =
      [9223372036854775808] := rfl
  rw [fed] at blocks
  exact ⟨t, calls, run, fed, blocks, consumed⟩

end Example

end Frontfill

end PolymarketIndexer
