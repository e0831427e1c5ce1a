import PolymarketIndexer.Frontfill.Ingest
import PolymarketIndexer.Storage.Schemas

/-! # Reading the archive

A row holds the text of every field of its event and the place of its log. Whoever can read the
texts of the libraries gets the whole event back, of each of the ten types: for a prepared market
or question, whose last column has the JSON object of all its fields, out of that object.
-/

namespace PolymarketIndexer

/-- What a reader of the archive has: an inverse of each text the libraries write. -/
structure TextReaders where
  b256 : String → Option B256
  address : String → Option Address
  u256 : String → Option U256
  bytes : String → Option Bytes
  hash : String → Option B256
  array : String → Option (List String)
  object : String → Option (List (String × String))

/-- The readers undo the libraries. The entries of an object come in any order. -/
structure TextReaders.Undo (readers : TextReaders) (alloy : Alloy) : Prop where
  b256 : ∀ x, ∃ text, alloy.serde.b256 x = .ok (.string text) ∧ readers.b256 text = some x
  address : ∀ x, ∃ text, alloy.serde.address x = .ok (.string text) ∧ readers.address text = some x
  u256 : ∀ x, ∃ text, alloy.serde.u256 x = .ok (.string text) ∧ readers.u256 text = some x
  bytes : ∀ x, ∃ text, alloy.serde.bytes x = .ok (.string text) ∧ readers.bytes text = some x
  hash : ∀ x, readers.hash (alloy.hashToString x) = some x
  array : ∀ texts : List String,
    readers.array (alloy.serde.display (.array (texts.map .string))) = some texts
  object : ∀ fields : List (String × String), (fields.map Prod.fst).Nodup → ∃ entries,
    readers.object (alloy.serde.display (.object (fields.map (fun f => (f.1, .string f.2))))) =
      some entries ∧ entries.Perm fields

namespace TextReaders

variable (readers : TextReaders)

/-- The value of a named text. -/
def field {α : Type} (read : String → Option α) (columns : List (String × String))
    (name : String) : Option α := (columns.lookup name).bind read

def u256s (text : String) : Option (List U256) := (readers.array text).bind (List.mapM readers.u256)

def readEvent : (kind : EventType) → List (String × String) → Option kind.Event
  | .conditionPreparation, columns => do
      return { conditionId := ← field readers.b256 columns "condition_id",
               oracle := ← field readers.address columns "oracle",
               questionId := ← field readers.b256 columns "question_id",
               outcomeSlotCount := ← field readers.u256 columns "outcome_slot_count" }
  | .positionSplit, columns => do
      return { collateralToken := ← field readers.address columns "collateral_token",
               parentCollectionId := ← field readers.address columns "parent_collection_id",
               conditionId := ← field readers.b256 columns "condition_id",
               partition := ← field readers.b256 columns "partition",
               amounts := ← field readers.u256s columns "amounts",
               amount := ← field readers.u256 columns "amount" }
  | .positionsMerge, columns => do
      return { collateralToken := ← field readers.address columns "collateral_token",
               parentCollectionId := ← field readers.address columns "parent_collection_id",
               conditionId := ← field readers.b256 columns "condition_id",
               partition := ← field readers.b256 columns "partition",
               amounts := ← field readers.u256s columns "amounts",
               amount := ← field readers.u256 columns "amount" }
  | .payoutRedemption, columns => do
      return { redeemer := ← field readers.address columns "redeemer",
               collateralToken := ← field readers.address columns "collateral_token",
               parentCollectionId := ← field readers.b256 columns "parent_collection_id",
               conditionId := ← field readers.b256 columns "condition_id",
               indexSets := ← field readers.u256s columns "index_sets",
               amount := ← field readers.u256 columns "amount" }
  | .orderFilled, columns => do
      return { orderHash := ← field readers.b256 columns "order_hash",
               maker := ← field readers.address columns "maker",
               taker := ← field readers.address columns "taker",
               makerFillAmount := ← field readers.u256 columns "maker_fill_amount",
               takerFillAmount := ← field readers.u256 columns "taker_fill_amount",
               makerFee := ← field readers.u256 columns "maker_fee",
               takerFee := ← field readers.u256 columns "taker_fee" }
  | .ordersMatched, columns => do
      return { takerOrderHash := ← field readers.b256 columns "taker_order_hash",
               makerOrderHash := ← field readers.b256 columns "maker_order_hash" }
  | .orderCancelled, columns => do
      return { orderHash := ← field readers.b256 columns "order_hash" }
  | .marketPrepared, columns => do
      -- the object repeats the other fields under their names in the declaration
      let whole ← field readers.object columns "data"
      return { conditionId := ← field readers.b256 columns "condition_id",
               creator := ← field readers.address columns "creator",
               marketId := ← field readers.u256 columns "market_id",
               data := ← field readers.bytes whole "data" }
  | .questionPrepared, columns => do
      let whole ← field readers.object columns "data"
      return { questionId := ← field readers.b256 columns "question_id",
               conditionId := ← field readers.b256 columns "condition_id",
               creator := ← field readers.address columns "creator",
               data := ← field readers.bytes whole "data" }
  | .positionsConverted, columns => do
      return { conditionId := ← field readers.b256 columns "condition_id",
               stakeholder := ← field readers.address columns "stakeholder",
               amount := ← field readers.u256 columns "amount",
               fee := ← field readers.u256 columns "fee" }

end TextReaders

section Columns

open TextReaders

variable {α : Type} {fields : List (String × Except String String)}
  {cols : List (String × String)} {name : String} {value : Except String String}

theorem lookup_gathered (gathered : gather fields = .ok cols)
    (found : fields.lookup name = some value) :
    ∃ text, value = .ok text ∧ cols.lookup name = some text := by
  induction fields generalizing cols with
  | nil => cases found
  | cons first fields ih =>
      obtain ⟨text, rest, shown, tail, rfl⟩ := gather_cons_ok.mp gathered
      rw [List.lookup_cons] at found ⊢
      cases same : name == first.1 with
      | true =>
          rw [same] at found
          exact ⟨text, (Option.some.inj found).symm.trans shown, rfl⟩
      | false =>
          rw [same] at found
          exact ih tail found

/-- A column is read as what it shows. -/
theorem field_gathered {read : String → Option α} {x : α} (gathered : gather fields = .ok cols)
    (found : fields.lookup name = some value)
    (shown : ∃ text, value = .ok text ∧ read text = some x) : field read cols name = some x := by
  obtain ⟨text, is, column⟩ := lookup_gathered gathered found
  obtain ⟨text', is', back⟩ := shown
  obtain rfl := Except.ok.inj (is.symm.trans is')
  rw [field, column]
  exact back

theorem lookup_perm {entries : List (String × String)} (distinct : (cols.map Prod.fst).Nodup)
    (perm : entries.Perm cols) (name : String) : entries.lookup name = cols.lookup name := by
  induction perm with
  | nil => rfl
  | cons x perm ih =>
      rw [List.lookup_cons, List.lookup_cons, ih (List.nodup_cons.mp distinct).2]
  | swap x y rest =>
      have apart : x.1 ≠ y.1 := by
        intro same
        simp [same] at distinct
      rw [List.lookup_cons, List.lookup_cons, List.lookup_cons, List.lookup_cons]
      cases first : name == y.1 with
      | false => rfl
      | true =>
          have other : (name == x.1) = false := by
            rw [beq_eq_false_iff_ne]
            exact fun same => apart (same.symm.trans (eq_of_beq first))
          rw [other]
  | trans first second ih ih' =>
      have distinct' := ((second.map Prod.fst).nodup_iff).mpr distinct
      rw [ih distinct', ih' distinct]

variable {readers : TextReaders} {alloy : Alloy} (undo : readers.Undo alloy)

theorem shown_text {τ : Type} [Serialize τ] {read : String → Option τ} {x : τ}
    (undone : ∃ text, Serialize.toValue alloy.serde x = .ok (.string text) ∧ read text = some x) :
    ∃ text, valueToString alloy.serde x = .ok text ∧ read text = some x := by
  obtain ⟨text, shown, back⟩ := undone
  refine ⟨text, ?_, back⟩
  simp [valueToString, shown, bind, Except.bind, pure, Except.pure]

include undo

theorem shown_b256 (x : B256) :
    ∃ text, valueToString alloy.serde x = .ok text ∧ readers.b256 text = some x :=
  shown_text (undo.b256 x)

theorem shown_address (x : Address) :
    ∃ text, valueToString alloy.serde x = .ok text ∧ readers.address text = some x :=
  shown_text (undo.address x)

theorem shown_u256 (x : U256) :
    ∃ text, valueToString alloy.serde x = .ok text ∧ readers.u256 text = some x :=
  shown_text (undo.u256 x)

theorem u256_texts (xs : List U256) : ∃ texts : List String,
    xs.mapM alloy.serde.u256 = .ok (texts.map .string) ∧ texts.mapM readers.u256 = some xs := by
  induction xs with
  | nil => exact ⟨[], rfl, rfl⟩
  | cons x xs ih =>
      obtain ⟨text, shown, back⟩ := undo.u256 x
      obtain ⟨texts, shownAll, backAll⟩ := ih
      refine ⟨text :: texts, ?_, ?_⟩
      · simp [List.mapM_cons, shown, shownAll, bind, Except.bind, pure, Except.pure]
      · simp [List.mapM_cons, back, backAll]

theorem shown_u256s (xs : List U256) :
    ∃ text, valueToString alloy.serde xs = .ok text ∧ readers.u256s text = some xs := by
  obtain ⟨texts, shown, back⟩ := u256_texts undo xs
  have array : Serialize.toValue alloy.serde xs = .ok (.array (texts.map .string)) := by
    change Value.array <$> xs.mapM alloy.serde.u256 = _
    rw [shown]
    rfl
  refine ⟨alloy.serde.display (.array (texts.map .string)), ?_, ?_⟩
  · simp [valueToString, array, bind, Except.bind, pure, Except.pure]
  · rw [u256s, undo.array]
    exact back

/-- The bytes of a struct are found in its JSON object. -/
theorem shown_struct {τ : Type} [Serialize τ] {x : τ} {texts : List (String × String)}
    {data : Bytes} {fields : List (String × Except String Value)}
    (struct : Serialize.toValue alloy.serde x = serializeStruct fields)
    (gathered : gather fields = .ok (texts.map (fun f => (f.1, .string f.2))))
    (distinct : (texts.map Prod.fst).Nodup) (own : field readers.bytes texts "data" = some data) :
    ∃ text, valueToString alloy.serde x = .ok text ∧ ∃ whole, readers.object text = some whole ∧
      field readers.bytes whole "data" = some data := by
  obtain ⟨entries, read, perm⟩ := undo.object texts distinct
  have object : Serialize.toValue alloy.serde x =
      .ok (.object (texts.map (fun f => (f.1, .string f.2)))) := by
    rw [struct, serializeStruct, gathered]
    rfl
  refine ⟨_, ?_, entries, read, ?_⟩
  · simp [valueToString, object, bind, Except.bind, pure, Except.pure]
  · rw [field, lookup_perm distinct perm]
    exact own

theorem shown_market (event : MarketPrepared) : ∃ text,
    valueToString alloy.serde event = .ok text ∧ ∃ whole, readers.object text = some whole ∧
      field readers.bytes whole "data" = some event.data := by
  obtain ⟨condition, isCondition, -⟩ := undo.b256 event.conditionId
  obtain ⟨creator, isCreator, -⟩ := undo.address event.creator
  obtain ⟨market, isMarket, -⟩ := undo.u256 event.marketId
  obtain ⟨data, isData, back⟩ := undo.bytes event.data
  have distinct : ["conditionId", "creator", "marketId", "data"].Nodup := by decide
  refine @shown_struct _ _ undo _ _ _ [("conditionId", condition), ("creator", creator),
    ("marketId", market), ("data", data)] _ _ rfl ?_ distinct back
  simp only [gather_cons_ok]
  exact ⟨_, _, isCondition, ⟨_, _, isCreator, ⟨_, _, isMarket, ⟨_, _, isData, rfl, rfl⟩, rfl⟩,
    rfl⟩, rfl⟩

theorem shown_question (event : QuestionPrepared) : ∃ text,
    valueToString alloy.serde event = .ok text ∧ ∃ whole, readers.object text = some whole ∧
      field readers.bytes whole "data" = some event.data := by
  obtain ⟨question, isQuestion, -⟩ := undo.b256 event.questionId
  obtain ⟨condition, isCondition, -⟩ := undo.b256 event.conditionId
  obtain ⟨creator, isCreator, -⟩ := undo.address event.creator
  obtain ⟨data, isData, back⟩ := undo.bytes event.data
  have distinct : ["questionId", "conditionId", "creator", "data"].Nodup := by decide
  refine @shown_struct _ _ undo _ _ _ [("questionId", question), ("conditionId", condition),
    ("creator", creator), ("data", data)] _ _ rfl ?_ distinct back
  simp only [gather_cons_ok]
  exact ⟨_, _, isQuestion, ⟨_, _, isCondition, ⟨_, _, isCreator, ⟨_, _, isData, rfl, rfl⟩, rfl⟩,
    rfl⟩, rfl⟩

/-- The columns of an event are read as the event. -/
theorem readEvent_gathered {kind : EventType} {inner : PrimitiveLog kind.Event}
    (gathered : gather (columns alloy.serde kind inner) = .ok cols) :
    readEvent readers kind cols = some inner.data := by
  have b256 : ∀ name (x : B256),
      (columns alloy.serde kind inner).lookup name = some (valueToString alloy.serde x) →
      field readers.b256 cols name = some x :=
    fun _ x found => field_gathered gathered found (shown_b256 undo x)
  have address : ∀ name (x : Address),
      (columns alloy.serde kind inner).lookup name = some (valueToString alloy.serde x) →
      field readers.address cols name = some x :=
    fun _ x found => field_gathered gathered found (shown_address undo x)
  have u256 : ∀ name (x : U256),
      (columns alloy.serde kind inner).lookup name = some (valueToString alloy.serde x) →
      field readers.u256 cols name = some x :=
    fun _ x found => field_gathered gathered found (shown_u256 undo x)
  have u256s : ∀ name (xs : List U256),
      (columns alloy.serde kind inner).lookup name = some (valueToString alloy.serde xs) →
      field readers.u256s cols name = some xs :=
    fun _ xs found => field_gathered gathered found (shown_u256s undo xs)
  cases kind with
  | conditionPreparation =>
      simp [readEvent, b256 "condition_id" inner.data.conditionId rfl,
        address "oracle" inner.data.oracle rfl, b256 "question_id" inner.data.questionId rfl,
        u256 "outcome_slot_count" inner.data.outcomeSlotCount rfl]
  | positionSplit | positionsMerge =>
      simp [readEvent, address "collateral_token" inner.data.collateralToken rfl,
        address "parent_collection_id" inner.data.parentCollectionId rfl,
        b256 "condition_id" inner.data.conditionId rfl, b256 "partition" inner.data.partition rfl,
        u256s "amounts" inner.data.amounts rfl, u256 "amount" inner.data.amount rfl]
  | payoutRedemption =>
      simp [readEvent, address "redeemer" inner.data.redeemer rfl,
        address "collateral_token" inner.data.collateralToken rfl,
        b256 "parent_collection_id" inner.data.parentCollectionId rfl,
        b256 "condition_id" inner.data.conditionId rfl,
        u256s "index_sets" inner.data.indexSets rfl, u256 "amount" inner.data.amount rfl]
  | orderFilled =>
      simp [readEvent, b256 "order_hash" inner.data.orderHash rfl,
        address "maker" inner.data.maker rfl, address "taker" inner.data.taker rfl,
        u256 "maker_fill_amount" inner.data.makerFillAmount rfl,
        u256 "taker_fill_amount" inner.data.takerFillAmount rfl,
        u256 "maker_fee" inner.data.makerFee rfl, u256 "taker_fee" inner.data.takerFee rfl]
  | ordersMatched =>
      simp [readEvent, b256 "taker_order_hash" inner.data.takerOrderHash rfl,
        b256 "maker_order_hash" inner.data.makerOrderHash rfl]
  | orderCancelled => simp [readEvent, b256 "order_hash" inner.data.orderHash rfl]
  | marketPrepared =>
      obtain ⟨text, shown, whole, read, data⟩ := shown_market undo inner.data
      have object := @field_gathered _ _ _ "data" _ _ _ gathered rfl ⟨text, shown, read⟩
      simp [readEvent, object, data, b256 "condition_id" inner.data.conditionId rfl,
        address "creator" inner.data.creator rfl, u256 "market_id" inner.data.marketId rfl]
  | questionPrepared =>
      obtain ⟨text, shown, whole, read, data⟩ := shown_question undo inner.data
      have object := @field_gathered _ _ _ "data" _ _ _ gathered rfl ⟨text, shown, read⟩
      simp [readEvent, object, data, b256 "question_id" inner.data.questionId rfl,
        b256 "condition_id" inner.data.conditionId rfl, address "creator" inner.data.creator rfl]
  | positionsConverted =>
      simp [readEvent, b256 "condition_id" inner.data.conditionId rfl,
        address "stakeholder" inner.data.stakeholder rfl, u256 "amount" inner.data.amount rfl,
        u256 "fee" inner.data.fee rfl]

omit undo in
theorem gather_ok {τ : Type} {fields : List (String × Except String τ)}
    (each : ∀ field ∈ fields, ∃ v, field.2 = .ok v) : ∃ out, gather fields = .ok out := by
  induction fields with
  | nil => exact ⟨[], rfl⟩
  | cons field fields ih =>
      obtain ⟨v, is⟩ := each field List.mem_cons_self
      obtain ⟨out, rest⟩ := ih (fun f member => each f (List.mem_cons_of_mem _ member))
      exact ⟨(field.1, v) :: out, gather_cons_ok.mpr ⟨v, out, is, rest, rfl⟩⟩

/-- Every event has columns. -/
theorem columns_gathered (kind : EventType) (inner : PrimitiveLog kind.Event) :
    ∃ cols, gather (columns alloy.serde kind inner) = .ok cols := by
  apply gather_ok
  have b256 := fun x => (shown_b256 undo x).imp fun _ shown => shown.1
  have address := fun x => (shown_address undo x).imp fun _ shown => shown.1
  have u256 := fun x => (shown_u256 undo x).imp fun _ shown => shown.1
  have u256s := fun xs => (shown_u256s undo xs).imp fun _ shown => shown.1
  have market := fun event => (shown_market undo event).imp fun _ shown => shown.1
  have question := fun event => (shown_question undo event).imp fun _ shown => shown.1
  cases kind <;> rw [columns] <;> simp [b256, address, u256, u256s, market, question]

end Columns

/-- What the archive tells of a log. -/
structure StoredLog where
  kind : EventType
  event : kind.Event
  blockNumber : UInt64
  transactionHash : B256
  logIndex : UInt64

/-- The event of a log and its place, from the log itself. -/
def StoredLog.ofLog (alloy : Alloy) (log : Log) : Option StoredLog := do
  let kind ← (topic0 log).bind (route alloy)
  let decoded ← (alloy.logDecode kind log).toOption
  let blockNumber ← log.blockNumber
  let transactionHash ← log.transactionHash
  let logIndex ← log.logIndex
  return { kind := kind, event := decoded.inner.data, blockNumber := blockNumber,
           transactionHash := transactionHash, logIndex := logIndex }

/-- The logs of an event, as far as they can be stored. -/
def storedLogs (alloy : Alloy) (kind : EventType) (logs : List Log) : List StoredLog :=
  (logs.filterMap (StoredLog.ofLog alloy)).filter (fun stored => stored.kind = kind)

def EventType.ofName (name : String) : Option EventType :=
  EventType.all.find? (fun kind => kind.name == name)

theorem EventType.ofName_name (kind : EventType) : EventType.ofName kind.name = some kind := by
  cases kind <;> rfl

def Cell.text? : Cell → Option String
  | .utf8 text => some text
  | _ => none

/-- A row under the names of its columns. -/
def TextReaders.readRow (readers : TextReaders) (names : List String) : Row → Option StoredLog
  | .utf8 eventType :: .uint64 blockNumber :: .utf8 hash :: .uint64 logIndex :: cells => do
      let kind ← EventType.ofName eventType
      let texts ← cells.mapM Cell.text?
      let event ← readers.readEvent kind ((names.drop 4).zip texts)
      let transactionHash ← readers.hash hash
      return { kind := kind, event := event, blockNumber := blockNumber,
               transactionHash := transactionHash, logIndex := logIndex }
  | _ => none

/-- What a file tells, row by row; nothing when it cannot be read. -/
def TextReaders.readFile (readers : TextReaders) (disk : Disk) (path : Path) :
    List (Option StoredLog) :=
  match disk.table? path with
  | some table => table.rows.map (readers.readRow (ParquetStorage.schemaNames table.schema))
  | none => []

section Rows

open ParquetStorage Frontfill

variable {readers : TextReaders} {alloy : Alloy} {log : Log} {decoded : DecodedEvent}

theorem cells_texts (texts : List String) :
    (texts.map Cell.utf8).mapM Cell.text? = some texts := by
  induction texts with
  | nil => rfl
  | cons text texts ih => simp [List.mapM_cons, Cell.text?, ih]

theorem zip_columns (cols : List (String × String)) :
    (cols.map Prod.fst).zip (cols.map Prod.snd) = cols := by
  rw [List.zip_map', List.map_id'']
  exact fun _ => rfl

/-- A decoded log gives the columns of its event. -/
theorem decoded_gathered (is : decodeLog alloy log = .ok (some decoded)) :
    ∃ kind event, (topic0 log).bind (route alloy) = some kind ∧
      alloy.logDecode kind log = .ok event ∧ decoded.eventType = kind.name ∧
      gather (columns alloy.serde kind event.inner) = .ok decoded.columns := by
  rcases decodeLog_cases alloy log with ⟨ignored, -⟩ | ⟨kind, routed, as⟩
  · cases ignored.symm.trans is
  · rw [is, decodeAs] at as
    cases decodes : alloy.logDecode kind log with
    | error error => simp [decodes, bind, Except.bind, Functor.map, Except.map] at as
    | ok event =>
        cases gathered : gather (columns alloy.serde kind event.inner) with
        | error error => simp [decodes, gathered, bind, Except.bind, Functor.map, Except.map] at as
        | ok cols =>
            simp only [decodes, gathered, bind, Except.bind, Functor.map, Except.map, pure,
              Except.pure, Except.ok.injEq, Option.some.injEq] at as
            subst as
            exact ⟨kind, event, routed, decodes, rfl, gathered⟩

/-- The row of a decoded log, read under the names of its columns, is the log. -/
theorem readRow_decoded (undo : readers.Undo alloy) (is : decodeLog alloy log = .ok (some decoded))
    {blockNumber logIndex : UInt64} {hash : B256} (block : log.blockNumber = some blockNumber)
    (isHash : log.transactionHash = some hash) (index : log.logIndex = some logIndex) :
    ∃ stored, StoredLog.ofLog alloy log = some stored ∧ stored.kind.name = decoded.eventType ∧
      stored.blockNumber = blockNumber ∧ stored.logIndex = logIndex ∧
      readers.readRow (expectedSchemaNames (columnNames stored.kind))
        (.utf8 decoded.eventType :: .uint64 blockNumber :: .utf8 (alloy.hashToString hash) ::
          .uint64 logIndex :: decoded.columns.map (fun column => .utf8 column.2)) =
        some stored := by
  obtain ⟨kind, event, routed, decodes, name, gathered⟩ := decoded_gathered is
  refine ⟨⟨kind, event.inner.data, blockNumber, hash, logIndex⟩, ?_, name.symm, rfl, rfl, ?_⟩
  · simp [StoredLog.ofLog, routed, decodes, block, isHash, index, Except.toOption]
  · have texts : (decoded.columns.map (fun column => Cell.utf8 column.2)).mapM Cell.text? =
        some (decoded.columns.map Prod.snd) := by
      rw [← cells_texts, List.map_map]
      rfl
    have names : (expectedSchemaNames (columnNames kind)).drop 4 =
        decoded.columns.map Prod.fst := (gather_names gathered).trans (columns_names _ _ _) |>.symm
    simp only [TextReaders.readRow, name, EventType.ofName_name, texts, names, zip_columns,
      readEvent_gathered undo gathered, undo.hash, Option.bind_eq_bind, Option.bind_some,
      Option.pure_def]

/-- What the live run writes of a log says everything about it: read under the columns of its
event type, the row gives back the event, of whichever type, and the place of the log. -/
theorem readRow_call (undo : readers.Undo alloy) {call : WriteCall}
    (kept : outcome alloy log = .ok (some call)) :
    ∃ stored, StoredLog.ofLog alloy log = some stored ∧ stored.kind.name = call.eventType ∧
      readers.readRow (expectedSchemaNames (columnNames stored.kind)) call.row = some stored := by
  cases checked : checkMetadata alloy log with
  | error error => cases (outcome_incomplete checked).symm.trans kept
  | ok taken =>
      obtain ⟨hash, block, isHash, index, same, text⟩ := checkMetadata_iff.mp checked
      cases is : decodeLog alloy log with
      | error error =>
          cases (outcome_undecodable checked (by rw [same, is])).symm.trans kept
      | ok event? =>
          cases event? with
          | none => cases (outcome_ignored checked (by rw [same, is])).symm.trans kept
          | some decoded =>
              have made := (outcome_kept checked (by rw [same, is])).symm.trans kept
              obtain rfl := Option.some.inj (Except.ok.inj made)
              obtain ⟨stored, ofLog, name, -, -, row⟩ :=
                readRow_decoded undo is block isHash index
              rw [← text] at row
              exact ⟨stored, ofLog, name, row⟩

/-- With nothing to fail in the libraries a log that can be stored decodes. -/
theorem ofLog_decodes (undo : readers.Undo alloy) {stored : StoredLog}
    (is : StoredLog.ofLog alloy log = some stored) :
    (∃ decoded, decodeLog alloy log = .ok (some decoded) ∧ decoded.eventType = stored.kind.name) ∧
      log.blockNumber = some stored.blockNumber ∧
      log.transactionHash = some stored.transactionHash ∧ log.logIndex = some stored.logIndex := by
  simp only [StoredLog.ofLog, Option.bind_eq_bind, Option.bind_eq_some_iff, Option.pure_def,
    Option.some.injEq] at is
  obtain ⟨kind, ⟨topic, first, routed⟩, event, decodes, block, isBlock, hash, isHash, index,
    isIndex, rfl⟩ := is
  refine ⟨?_, isBlock, isHash, isIndex⟩
  obtain ⟨cols, gathered⟩ := columns_gathered undo kind event.inner
  have decodes : alloy.logDecode kind log = .ok event := by
    cases made : alloy.logDecode kind log <;> simp_all [Except.toOption]
  refine ⟨{ eventType := kind.name, columns := cols }, ?_, rfl⟩
  rcases decodeLog_cases alloy log with ⟨-, unknown⟩ | ⟨kind', routed', as⟩
  · rw [first, Option.bind_some, routed] at unknown
    cases unknown
  · rw [first, Option.bind_some, routed] at routed'
    obtain rfl := Option.some.inj routed'
    simp [as, decodeAs, decodes, gathered, bind, Except.bind, Functor.map, Except.map, pure,
      Except.pure]

end Rows

end PolymarketIndexer
