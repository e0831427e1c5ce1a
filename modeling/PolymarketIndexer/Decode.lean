import PolymarketIndexer.Contracts

/-! # Topic routing and event normalisation

`decodeLog` picks the event by the first topic and renders its fields as named
text columns. What the program takes from its libraries is a parameter: the
event signatures, the ABI decoder, the JSON form of the Solidity values and the
text of a hash. An error of any of them is an error of the decoder.
-/

namespace PolymarketIndexer

structure LogData where
  topics : List B256
  data : Bytes
  deriving DecidableEq, Repr

structure PrimitiveLog (τ : Type) where
  address : Address
  data : τ
  deriving DecidableEq

/-- A log as a provider reports it. The block and position fields may be missing. -/
structure RpcLog (τ : Type) where
  inner : PrimitiveLog τ
  blockNumber : Option UInt64
  transactionHash : Option B256
  logIndex : Option UInt64
  deriving DecidableEq

abbrev Log := RpcLog LogData

def HasMetadata (log : Log) : Prop :=
  log.blockNumber.isSome ∧ log.transactionHash.isSome ∧ log.logIndex.isSome

inductive Value where
  | string (text : String)
  | array (items : List Value)
  | object (fields : List (String × Value))

structure Serde where
  b256 : B256 → Except String Value
  address : Address → Except String Value
  u256 : U256 → Except String Value
  bytes : Bytes → Except String Value
  display : Value → String

structure Alloy where
  signatureHash : EventType → B256
  logDecode : (kind : EventType) → Log → Except String (RpcLog kind.Event)
  serde : Serde
  hashToString : B256 → String
  addressFromStr : String → Except String Address

/-- A `0x` text. -/
def IsHex (text : String) : Prop :=
  ∃ digits : List Char, text = String.ofList ('0' :: 'x' :: digits) ∧
    ∀ c ∈ digits, c ∈ "0123456789abcdef".toList

/-- What the program relies on in the libraries: the ten signatures differ, words and
byte strings become injective `0x` texts, an array of such texts can be read back from
its JSON text, and the JSON text of an object starts with a brace. -/
structure Renders (alloy : Alloy) : Prop where
  signatures : ∀ kind kind', alloy.signatureHash kind = alloy.signatureHash kind' → kind = kind'
  bytes32 : ∀ x, ∃ text, alloy.serde.b256 x = .ok (.string text) ∧ IsHex text
  address : ∀ x, ∃ text, alloy.serde.address x = .ok (.string text) ∧ IsHex text
  uint256 : ∀ x, ∃ text, alloy.serde.u256 x = .ok (.string text) ∧ IsHex text
  bytes : ∀ x, ∃ text, alloy.serde.bytes x = .ok (.string text) ∧ IsHex text
  bytes32_inj : ∀ x y, alloy.serde.b256 x = alloy.serde.b256 y → x = y
  address_inj : ∀ x y, alloy.serde.address x = alloy.serde.address y → x = y
  uint256_inj : ∀ x y, alloy.serde.u256 x = alloy.serde.u256 y → x = y
  bytes_inj : ∀ x y, alloy.serde.bytes x = alloy.serde.bytes y → x = y
  array_inj : ∀ xs ys : List String, (∀ t ∈ xs, IsHex t) → (∀ t ∈ ys, IsHex t) →
    alloy.serde.display (.array (xs.map .string)) = alloy.serde.display (.array (ys.map .string)) →
    xs = ys
  object : ∀ fields, ∃ rest, alloy.serde.display (.object fields) = "\x7b" ++ rest

class Serialize (τ : Type) where
  toValue : Serde → τ → Except String Value

instance : Serialize B256 := ⟨Serde.b256⟩
instance : Serialize Address := ⟨Serde.address⟩
instance : Serialize U256 := ⟨Serde.u256⟩
instance : Serialize Bytes := ⟨Serde.bytes⟩

instance {τ : Type} [Serialize τ] : Serialize (List τ) where
  toValue serde items := Value.array <$> items.mapM (Serialize.toValue serde)

/-- Named fallible values, in order; the first failure is the result. -/
def gather {τ : Type} (fields : List (String × Except String τ)) :
    Except String (List (String × τ)) :=
  fields.mapM (fun field => (field.1, ·) <$> field.2)

/-- The derived JSON form of a struct: one object entry for each field. -/
def serializeStruct (fields : List (String × Except String Value)) : Except String Value :=
  Value.object <$> gather fields

instance : Serialize MarketPrepared where
  toValue serde event := serializeStruct
    [("conditionId", Serialize.toValue serde event.conditionId),
      ("creator", Serialize.toValue serde event.creator),
      ("marketId", Serialize.toValue serde event.marketId),
      ("data", Serialize.toValue serde event.data)]

instance : Serialize QuestionPrepared where
  toValue serde event := serializeStruct
    [("questionId", Serialize.toValue serde event.questionId),
      ("conditionId", Serialize.toValue serde event.conditionId),
      ("creator", Serialize.toValue serde event.creator),
      ("data", Serialize.toValue serde event.data)]

structure DecodedEvent where
  eventType : String
  columns : List (String × String)
  deriving DecidableEq, Repr

def topic0 (log : Log) : Option B256 := log.inner.data.topics.head?

/-- A JSON string is stored bare, anything else as its JSON text. -/
def valueToString {τ : Type} [Serialize τ] (serde : Serde) (value : τ) : Except String String := do
  match ← Serialize.toValue serde value with
  | .string text => return text
  | other => return serde.display other

/-- The column lists of the ten branches, each value with its rendering. A field access
on `inner` goes through to the decoded event, except that `data` (and `address`) are
fields of the log itself: there `inner.data` is the whole event. -/
def columns (serde : Serde) : (kind : EventType) → PrimitiveLog kind.Event →
    List (String × Except String String)
  | .conditionPreparation, inner =>
      [("condition_id", valueToString serde inner.data.conditionId),
        ("oracle", valueToString serde inner.data.oracle),
        ("question_id", valueToString serde inner.data.questionId),
        ("outcome_slot_count", valueToString serde inner.data.outcomeSlotCount)]
  | .positionSplit, inner =>
      [("collateral_token", valueToString serde inner.data.collateralToken),
        ("parent_collection_id", valueToString serde inner.data.parentCollectionId),
        ("condition_id", valueToString serde inner.data.conditionId),
        ("partition", valueToString serde inner.data.partition),
        ("amounts", valueToString serde inner.data.amounts),
        ("amount", valueToString serde inner.data.amount)]
  | .positionsMerge, inner =>
      [("collateral_token", valueToString serde inner.data.collateralToken),
        ("parent_collection_id", valueToString serde inner.data.parentCollectionId),
        ("condition_id", valueToString serde inner.data.conditionId),
        ("partition", valueToString serde inner.data.partition),
        ("amounts", valueToString serde inner.data.amounts),
        ("amount", valueToString serde inner.data.amount)]
  | .payoutRedemption, inner =>
      [("redeemer", valueToString serde inner.data.redeemer),
        ("collateral_token", valueToString serde inner.data.collateralToken),
        ("parent_collection_id", valueToString serde inner.data.parentCollectionId),
        ("condition_id", valueToString serde inner.data.conditionId),
        ("index_sets", valueToString serde inner.data.indexSets),
        ("amount", valueToString serde inner.data.amount)]
  | .orderFilled, inner =>
      [("order_hash", valueToString serde inner.data.orderHash),
        ("maker", valueToString serde inner.data.maker),
        ("taker", valueToString serde inner.data.taker),
        ("maker_fill_amount", valueToString serde inner.data.makerFillAmount),
        ("taker_fill_amount", valueToString serde inner.data.takerFillAmount),
        ("maker_fee", valueToString serde inner.data.makerFee),
        ("taker_fee", valueToString serde inner.data.takerFee)]
  | .ordersMatched, inner =>
      [("taker_order_hash", valueToString serde inner.data.takerOrderHash),
        ("maker_order_hash", valueToString serde inner.data.makerOrderHash)]
  | .orderCancelled, inner =>
      [("order_hash", valueToString serde inner.data.orderHash)]
  | .marketPrepared, inner =>
      [("condition_id", valueToString serde inner.data.conditionId),
        ("creator", valueToString serde inner.data.creator),
        ("market_id", valueToString serde inner.data.marketId),
        ("data", valueToString serde (inner.data : MarketPrepared))]
  | .questionPrepared, inner =>
      [("question_id", valueToString serde inner.data.questionId),
        ("condition_id", valueToString serde inner.data.conditionId),
        ("creator", valueToString serde inner.data.creator),
        ("data", valueToString serde (inner.data : QuestionPrepared))]
  | .positionsConverted, inner =>
      [("condition_id", valueToString serde inner.data.conditionId),
        ("stakeholder", valueToString serde inner.data.stakeholder),
        ("amount", valueToString serde inner.data.amount),
        ("fee", valueToString serde inner.data.fee)]

section

variable (alloy : Alloy)

def decodeAs (kind : EventType) (log : Log) : Except String DecodedEvent := do
  let event ← alloy.logDecode kind log
  let columns ← gather (columns alloy.serde kind event.inner)
  return { eventType := kind.name, columns := columns }

/-- The event whose signature is the first topic: the branches are tried in order. -/
def route (topic : B256) : Option EventType :=
  EventType.all.find? (fun kind => topic == alloy.signatureHash kind)

def decodeLog (log : Log) : Except String (Option DecodedEvent) := do
  let some topic := topic0 log | return none
  let some kind := route alloy topic | return none
  return some (← decodeAs alloy kind log)

end

def columnNames : EventType → List String
  | .conditionPreparation => ["condition_id", "oracle", "question_id", "outcome_slot_count"]
  | .positionSplit | .positionsMerge =>
      ["collateral_token", "parent_collection_id", "condition_id", "partition", "amounts",
        "amount"]
  | .payoutRedemption =>
      ["redeemer", "collateral_token", "parent_collection_id", "condition_id", "index_sets",
        "amount"]
  | .orderFilled =>
      ["order_hash", "maker", "taker", "maker_fill_amount", "taker_fill_amount", "maker_fee",
        "taker_fee"]
  | .ordersMatched => ["taker_order_hash", "maker_order_hash"]
  | .orderCancelled => ["order_hash"]
  | .marketPrepared => ["condition_id", "creator", "market_id", "data"]
  | .questionPrepared => ["question_id", "condition_id", "creator", "data"]
  | .positionsConverted => ["condition_id", "stakeholder", "amount", "fee"]

theorem columns_names (serde : Serde) (kind : EventType) (inner : PrimitiveLog kind.Event) :
    (columns serde kind inner).map Prod.fst = columnNames kind := by
  cases kind <;> rfl

theorem gather_cons_ok {τ : Type} {name : String} {value : Except String τ}
    {fields : List (String × Except String τ)} {out : List (String × τ)} :
    gather ((name, value) :: fields) = .ok out ↔
      ∃ v rest, value = .ok v ∧ gather fields = .ok rest ∧ out = (name, v) :: rest := by
  simp only [gather, List.mapM_cons]
  cases value with
  | error e => simp [bind, Except.bind, Functor.map, Except.map]
  | ok v =>
      cases List.mapM (fun field => (field.1, ·) <$> field.2) fields with
      | error e => simp [bind, Except.bind, Functor.map, Except.map]
      | ok rest => simp [bind, Except.bind, Functor.map, Except.map, pure, Except.pure, eq_comm]

theorem gather_names {τ : Type} {fields : List (String × Except String τ)}
    {out : List (String × τ)} (h : gather fields = .ok out) :
    out.map Prod.fst = fields.map Prod.fst := by
  induction fields generalizing out with
  | nil => cases h; rfl
  | cons field fields ih =>
      obtain ⟨v, rest, -, tail, rfl⟩ := gather_cons_ok.mp h
      simp only [List.map_cons, ih tail]

section

variable {alloy : Alloy}

theorem decodeAs_ok {kind : EventType} {log : Log} {event : DecodedEvent}
    (h : decodeAs alloy kind log = .ok event) :
    event.eventType = kind.name ∧ event.columns.map Prod.fst = columnNames kind := by
  simp only [decodeAs, bind, Except.bind] at h
  split at h
  · cases h
  · split at h
    · cases h
    · rename_i cols gathered
      cases h
      exact ⟨rfl, (gather_names gathered).trans (columns_names _ _ _)⟩

theorem decodeLog_cases (alloy : Alloy) (log : Log) :
    (decodeLog alloy log = .ok none ∧ (topic0 log).bind (route alloy) = none) ∨
      ∃ kind, (topic0 log).bind (route alloy) = some kind ∧
        decodeLog alloy log = some <$> decodeAs alloy kind log := by
  unfold decodeLog
  cases ht : topic0 log with
  | none => exact .inl ⟨rfl, rfl⟩
  | some topic =>
      cases hr : route alloy topic with
      | none => exact .inl ⟨by simp [hr]; rfl, by simp [hr]⟩
      | some kind => exact .inr ⟨kind, by simp [hr], by simp [hr]⟩

/-- The event type of a decoded log fixes its column names. -/
theorem decodeLog_some {log : Log} {event : DecodedEvent}
    (h : decodeLog alloy log = .ok (some event)) :
    ∃ kind, (topic0 log).bind (route alloy) = some kind ∧ event.eventType = kind.name ∧
      event.columns.map Prod.fst = columnNames kind := by
  rcases decodeLog_cases alloy log with ⟨ignored, -⟩ | ⟨kind, routed, decoded⟩
  · cases ignored.symm.trans h
  · cases hd : decodeAs alloy kind log with
    | error e => simp [decoded, hd, Functor.map, Except.map] at h
    | ok event' =>
        obtain rfl : event' = event := by
          simpa [decoded, hd, Functor.map, Except.map] using h
        exact ⟨kind, routed, decodeAs_ok hd⟩

end

end PolymarketIndexer
