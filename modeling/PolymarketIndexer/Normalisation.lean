import PolymarketIndexer.Reference

/-! # What a normalised event should hold

The declaration of an event fixes the columns its rows ought to have: one for each
field, named by the snake case of the field and holding the rendering of that
field. This is compared with what the decoder's branches produce.
-/

namespace PolymarketIndexer.Normalisation

/-- A field value of one of the Solidity types the events use. -/
inductive SolValue where
  | bytes32 (x : B256)
  | address (x : Address)
  | uint256 (x : U256)
  | uint256Array (xs : List U256)
  | bytes (x : Bytes)
  deriving DecidableEq

def SolValue.render (serde : Serde) : SolValue → Except String String
  | .bytes32 x => valueToString serde x
  | .address x => valueToString serde x
  | .uint256 x => valueToString serde x
  | .uint256Array xs => valueToString serde xs
  | .bytes x => valueToString serde x

/-- The declared fields of an event, in order. -/
def declaredFields : (kind : EventType) → kind.Event → List (String × SolValue)
  | .conditionPreparation, e =>
      [("conditionId", .bytes32 e.conditionId), ("oracle", .address e.oracle),
        ("questionId", .bytes32 e.questionId), ("outcomeSlotCount", .uint256 e.outcomeSlotCount)]
  | .positionSplit, e =>
      [("collateralToken", .address e.collateralToken),
        ("parentCollectionId", .address e.parentCollectionId),
        ("conditionId", .bytes32 e.conditionId), ("partition", .bytes32 e.partition),
        ("amounts", .uint256Array e.amounts), ("amount", .uint256 e.amount)]
  | .positionsMerge, e =>
      [("collateralToken", .address e.collateralToken),
        ("parentCollectionId", .address e.parentCollectionId),
        ("conditionId", .bytes32 e.conditionId), ("partition", .bytes32 e.partition),
        ("amounts", .uint256Array e.amounts), ("amount", .uint256 e.amount)]
  | .payoutRedemption, e =>
      [("redeemer", .address e.redeemer), ("collateralToken", .address e.collateralToken),
        ("parentCollectionId", .bytes32 e.parentCollectionId),
        ("conditionId", .bytes32 e.conditionId), ("indexSets", .uint256Array e.indexSets),
        ("amount", .uint256 e.amount)]
  | .orderFilled, e =>
      [("orderHash", .bytes32 e.orderHash), ("maker", .address e.maker),
        ("taker", .address e.taker), ("makerFillAmount", .uint256 e.makerFillAmount),
        ("takerFillAmount", .uint256 e.takerFillAmount), ("makerFee", .uint256 e.makerFee),
        ("takerFee", .uint256 e.takerFee)]
  | .ordersMatched, e =>
      [("takerOrderHash", .bytes32 e.takerOrderHash), ("makerOrderHash", .bytes32 e.makerOrderHash)]
  | .orderCancelled, e => [("orderHash", .bytes32 e.orderHash)]
  | .marketPrepared, e =>
      [("conditionId", .bytes32 e.conditionId), ("creator", .address e.creator),
        ("marketId", .uint256 e.marketId), ("data", .bytes e.data)]
  | .questionPrepared, e =>
      [("questionId", .bytes32 e.questionId), ("conditionId", .bytes32 e.conditionId),
        ("creator", .address e.creator), ("data", .bytes e.data)]
  | .positionsConverted, e =>
      [("conditionId", .bytes32 e.conditionId), ("stakeholder", .address e.stakeholder),
        ("amount", .uint256 e.amount), ("fee", .uint256 e.fee)]

def snakeCase (name : String) : String :=
  String.ofList (name.toList.flatMap (fun c => if c.isUpper then ['_', c.toLower] else [c]))

def declaredRenderings (serde : Serde) (kind : EventType) (e : kind.Event) :
    List (String × Except String String) :=
  (declaredFields kind e).map (fun field => (snakeCase field.1, field.2.render serde))

/-- The columns the declaration asks for. -/
def declaredColumns (serde : Serde) (kind : EventType) (e : kind.Event) :
    Except String (List (String × String)) :=
  gather (declaredRenderings serde kind e)

/-- The log carries the event: its first topic is the event's signature and the ABI
decoder gives the event back. -/
structure Carries (alloy : Alloy) (log : Log) (kind : EventType) (e : kind.Event) : Prop where
  signature : topic0 log = some (alloy.signatureHash kind)
  decodes : ∃ event, alloy.logDecode kind log = .ok event ∧ event.inner.data = e

/-- The decoder's output for the log is the declared one, and it determines the event
when every column is read as its own field. -/
structure Faithful (alloy : Alloy) (log : Log) (kind : EventType) (e : kind.Event) : Prop where
  columns : ∃ cols, declaredColumns alloy.serde kind e = .ok cols ∧
    decodeLog alloy log = .ok (some { eventType := kind.name, columns := cols })
  rebuilt : ∀ kind' e' cols, declaredColumns alloy.serde kind' e' = .ok cols →
    decodeLog alloy log = .ok (some { eventType := kind'.name, columns := cols }) →
    (⟨kind', e'⟩ : (k : EventType) × k.Event) = ⟨kind, e⟩

def fieldNames : EventType → List String
  | .conditionPreparation => ["conditionId", "oracle", "questionId", "outcomeSlotCount"]
  | .positionSplit | .positionsMerge =>
      ["collateralToken", "parentCollectionId", "conditionId", "partition", "amounts", "amount"]
  | .payoutRedemption =>
      ["redeemer", "collateralToken", "parentCollectionId", "conditionId", "indexSets", "amount"]
  | .orderFilled =>
      ["orderHash", "maker", "taker", "makerFillAmount", "takerFillAmount", "makerFee", "takerFee"]
  | .ordersMatched => ["takerOrderHash", "makerOrderHash"]
  | .orderCancelled => ["orderHash"]
  | .marketPrepared => ["conditionId", "creator", "marketId", "data"]
  | .questionPrepared => ["questionId", "conditionId", "creator", "data"]
  | .positionsConverted => ["conditionId", "stakeholder", "amount", "fee"]

theorem snakeCase_fieldNames (kind : EventType) :
    (fieldNames kind).map snakeCase = columnNames kind := by
  have table : ∀ k ∈ EventType.all, (fieldNames k).map snakeCase = columnNames k := by decide
  exact table kind kind.mem_all

theorem declaredRenderings_names (serde : Serde) (kind : EventType) (e : kind.Event) :
    (declaredRenderings serde kind e).map Prod.fst = columnNames kind := by
  have names : (declaredFields kind e).map Prod.fst = fieldNames kind := by cases kind <;> rfl
  rw [← snakeCase_fieldNames, ← names, declaredRenderings, List.map_map, List.map_map]
  rfl

theorem pairs_ext {α β : Type} {xs ys : List (α × β)} (first : xs.map Prod.fst = ys.map Prod.fst)
    (second : xs.map Prod.snd = ys.map Prod.snd) : xs = ys := by
  induction xs generalizing ys with
  | nil => simpa using first
  | cons x xs ih =>
      cases ys with
      | nil => simp at first
      | cons y ys =>
          simp only [List.map_cons, List.cons.injEq] at first second
          rw [Prod.ext first.1 second.1, ih first.2 second.2]

/-- Eight branches read every column off its own field. -/
theorem columns_declared (serde : Serde) (kind : EventType) (inner : PrimitiveLog kind.Event)
    (market : kind ≠ .marketPrepared) (question : kind ≠ .questionPrepared) :
    columns serde kind inner = declaredRenderings serde kind inner.data := by
  apply pairs_ext
  · rw [columns_names, declaredRenderings_names]
  · cases kind with
    | marketPrepared => exact absurd rfl market
    | questionPrepared => exact absurd rfl question
    | _ => simp only [columns, declaredRenderings, declaredFields, SolValue.render, List.map_cons,
        List.map_nil]

section

variable {alloy : Alloy} (renders : Renders alloy)
include renders

theorem uint256s_strings (xs : List U256) :
    ∃ texts : List String, xs.mapM alloy.serde.u256 = .ok (texts.map .string) ∧ ∀ t ∈ texts, IsHex t := by
  induction xs with
  | nil => exact ⟨[], rfl, by simp⟩
  | cons x xs ih =>
      obtain ⟨text, hx, hex⟩ := renders.uint256 x
      obtain ⟨texts, hxs, hexes⟩ := ih
      refine ⟨text :: texts, ?_, by simpa using ⟨hex, hexes⟩⟩
      simp [List.mapM_cons, hx, hxs, bind, Except.bind, pure, Except.pure]

theorem uint256s_inj {xs ys : List U256} {values : List Value}
    (hx : xs.mapM alloy.serde.u256 = .ok values) (hy : ys.mapM alloy.serde.u256 = .ok values) :
    xs = ys := by
  induction xs generalizing ys values with
  | nil =>
      cases hx
      cases ys with
      | nil => rfl
      | cons y ys =>
          obtain ⟨text, hy', -⟩ := renders.uint256 y
          obtain ⟨texts, hys, -⟩ := uint256s_strings renders ys
          simp [List.mapM_cons, hy', hys, bind, Except.bind, pure, Except.pure] at hy
  | cons x xs ih =>
      obtain ⟨text, hx', -⟩ := renders.uint256 x
      obtain ⟨texts, hxs, -⟩ := uint256s_strings renders xs
      simp only [List.mapM_cons, hx', hxs, bind, Except.bind, pure, Except.pure,
        Except.ok.injEq] at hx
      subst hx
      cases ys with
      | nil => simp [pure, Except.pure] at hy
      | cons y ys =>
          obtain ⟨text', hy', -⟩ := renders.uint256 y
          obtain ⟨texts', hys, -⟩ := uint256s_strings renders ys
          simp only [List.mapM_cons, hy', hys, bind, Except.bind, pure, Except.pure,
            Except.ok.injEq, List.cons.injEq, Value.string.injEq] at hy
          obtain ⟨same, rest⟩ := hy
          have head : x = y := renders.uint256_inj x y (by rw [hx', hy', same])
          rw [head, ih hxs (by rw [hys, rest])]

omit renders in
theorem valueToString_string {τ : Type} [Serialize τ] {serde : Serde} {x : τ} {text : String}
    (h : Serialize.toValue serde x = .ok (.string text)) : valueToString serde x = .ok text := by
  simp [valueToString, h, bind, Except.bind, pure, Except.pure]

theorem valueToString_uint256s (xs : List U256) :
    ∃ texts : List String, xs.mapM alloy.serde.u256 = .ok (texts.map .string) ∧ (∀ t ∈ texts, IsHex t) ∧
      valueToString alloy.serde xs = .ok (alloy.serde.display (.array (texts.map .string))) := by
  obtain ⟨texts, h, hexes⟩ := uint256s_strings renders xs
  refine ⟨texts, h, hexes, ?_⟩
  have array : Serialize.toValue alloy.serde xs = .ok (.array (texts.map .string)) := by
    change Value.array <$> xs.mapM alloy.serde.u256 = _
    rw [h]
    rfl
  simp [valueToString, array, bind, Except.bind, pure, Except.pure]

theorem render_ok (v : SolValue) : ∃ text, v.render alloy.serde = .ok text := by
  cases v with
  | bytes32 x =>
      obtain ⟨text, h, -⟩ := renders.bytes32 x
      exact ⟨text, valueToString_string h⟩
  | address x =>
      obtain ⟨text, h, -⟩ := renders.address x
      exact ⟨text, valueToString_string h⟩
  | uint256 x =>
      obtain ⟨text, h, -⟩ := renders.uint256 x
      exact ⟨text, valueToString_string h⟩
  | uint256Array xs =>
      obtain ⟨texts, -, -, h⟩ := valueToString_uint256s renders xs
      exact ⟨_, h⟩
  | bytes x =>
      obtain ⟨text, h, -⟩ := renders.bytes x
      exact ⟨text, valueToString_string h⟩

omit renders in
/-- A type whose values become JSON strings injectively has injective renderings. -/
theorem valueToString_inj {τ : Type} [Serialize τ] {serde : Serde}
    (strings : ∀ x : τ, ∃ text, Serialize.toValue serde x = .ok (.string text))
    (inj : ∀ x y : τ, Serialize.toValue serde x = Serialize.toValue serde y → x = y) {x y : τ} :
    valueToString serde x = valueToString serde y ↔ x = y := by
  constructor
  · intro same
    obtain ⟨text, hx⟩ := strings x
    obtain ⟨text', hy⟩ := strings y
    rw [valueToString_string hx, valueToString_string hy] at same
    exact inj x y (by rw [hx, hy, Except.ok.inj same])
  · rintro rfl
    rfl

theorem bytes32_text {x y : B256} :
    valueToString alloy.serde x = valueToString alloy.serde y ↔ x = y :=
  valueToString_inj (fun x => (renders.bytes32 x).imp fun _ h => h.1) renders.bytes32_inj

theorem address_text {x y : Address} :
    valueToString alloy.serde x = valueToString alloy.serde y ↔ x = y :=
  valueToString_inj (fun x => (renders.address x).imp fun _ h => h.1) renders.address_inj

theorem uint256_text {x y : U256} :
    valueToString alloy.serde x = valueToString alloy.serde y ↔ x = y :=
  valueToString_inj (fun x => (renders.uint256 x).imp fun _ h => h.1) renders.uint256_inj

theorem bytes_text {x y : Bytes} :
    valueToString alloy.serde x = valueToString alloy.serde y ↔ x = y :=
  valueToString_inj (fun x => (renders.bytes x).imp fun _ h => h.1) renders.bytes_inj

theorem uint256s_text {xs ys : List U256} :
    valueToString alloy.serde xs = valueToString alloy.serde ys ↔ xs = ys := by
  constructor
  · intro same
    obtain ⟨texts, hx, hexes, textx⟩ := valueToString_uint256s renders xs
    obtain ⟨texts', hy, hexes', texty⟩ := valueToString_uint256s renders ys
    rw [textx, texty] at same
    have : texts = texts' := renders.array_inj texts texts' hexes hexes' (Except.ok.inj same)
    exact uint256s_inj renders hx (this ▸ hy)
  · rintro rfl
    rfl

theorem declaredColumns_ok (kind : EventType) (e : kind.Event) :
    ∃ cols, declaredColumns alloy.serde kind e = .ok cols := by
  unfold declaredColumns declaredRenderings
  generalize declaredFields kind e = fields
  induction fields with
  | nil => exact ⟨[], rfl⟩
  | cons field fields ih =>
      obtain ⟨text, h⟩ := render_ok renders field.2
      obtain ⟨cols, hcols⟩ := ih
      exact ⟨(snakeCase field.1, text) :: cols, gather_cons_ok.mpr ⟨text, cols, h, hcols, rfl⟩⟩

omit renders in
theorem gather_values {τ : Type} {fields : List (String × Except String τ)}
    {out : List (String × τ)} (h : gather fields = .ok out) :
    fields.map Prod.snd = out.map (fun column => .ok column.2) := by
  induction fields generalizing out with
  | nil => cases h; rfl
  | cons field fields ih =>
      obtain ⟨v, rest, value, tail, rfl⟩ := gather_cons_ok.mp h
      simp only [List.map_cons, ih tail, ← value]

/-- The declared columns determine the event. -/
theorem declaredColumns_inj {kind : EventType} {e e' : kind.Event}
    {cols : List (String × String)} (h : declaredColumns alloy.serde kind e = .ok cols)
    (h' : declaredColumns alloy.serde kind e' = .ok cols) : e = e' := by
  have same : (declaredRenderings alloy.serde kind e).map Prod.snd =
      (declaredRenderings alloy.serde kind e').map Prod.snd :=
    (gather_values h).trans (gather_values h').symm
  cases kind <;> cases e <;> cases e' <;>
    simpa [declaredRenderings, declaredFields, SolValue.render, bytes32_text renders,
      address_text renders, uint256_text renders, bytes_text renders,
      uint256s_text renders] using same

theorem route_signature (kind : EventType) : route alloy (alloy.signatureHash kind) = some kind := by
  unfold route
  cases found : EventType.all.find? (fun k => alloy.signatureHash kind == alloy.signatureHash k) with
  | none =>
      have := List.find?_eq_none.mp found kind kind.mem_all
      simp at this
  | some k =>
      have := List.find?_some found
      rw [renders.signatures kind k (by simpa using this)]

theorem decodeLog_carries {log : Log} {kind : EventType} {e : kind.Event}
    (carries : Carries alloy log kind e) :
    ∃ inner : PrimitiveLog kind.Event, inner.data = e ∧ decodeLog alloy log =
      (fun cols => some { eventType := kind.name, columns := cols }) <$>
        gather (columns alloy.serde kind inner) := by
  obtain ⟨event, decoded, data⟩ := carries.decodes
  have routed : (topic0 log).bind (route alloy) = some kind := by
    rw [carries.signature, Option.bind_some, route_signature renders]
  refine ⟨event.inner, data, ?_⟩
  rcases decodeLog_cases alloy log with ⟨-, unknown⟩ | ⟨k, known, decoded'⟩
  · cases unknown.symm.trans routed
  · obtain rfl : k = kind := Option.some.inj (known.symm.trans routed)
    rw [decoded', decodeAs, decoded]
    cases gathered : gather (columns alloy.serde k event.inner) <;>
      simp [gathered, bind, Except.bind, Functor.map, Except.map, pure, Except.pure]

theorem bytes_text_hex {x : Bytes} {text : String} (h : valueToString alloy.serde x = .ok text) :
    IsHex text := by
  obtain ⟨text', value, hex⟩ := renders.bytes x
  rw [valueToString_string value] at h
  exact Except.ok.inj h ▸ hex

/-- A struct is stored as the JSON text of an object. -/
theorem struct_text {τ : Type} [Serialize τ] {x : τ} {text : String}
    {fields : List (String × Except String Value)}
    (struct : Serialize.toValue alloy.serde x = serializeStruct fields)
    (h : valueToString alloy.serde x = .ok text) : ∃ rest, text = "\x7b" ++ rest := by
  rw [valueToString, struct, serializeStruct] at h
  cases gathered : gather fields with
  | error e => simp [gathered, bind, Except.bind, Functor.map, Except.map] at h
  | ok entries =>
      obtain ⟨rest, shown⟩ := renders.object entries
      refine ⟨rest, ?_⟩
      rw [← shown]
      simpa [gathered, bind, Except.bind, Functor.map, Except.map, pure, Except.pure,
        eq_comm] using h

omit renders in
theorem isHex_ne_object {text rest : String} (hex : IsHex text) : text ≠ "\x7b" ++ rest := by
  obtain ⟨digits, rfl, -⟩ := hex
  intro same
  have := congrArg String.toList same
  simp at this

/-- The declared last column of a prepared market or question is its bytes, the decoder's
is the JSON object of the whole event. -/
theorem struct_not_faithful {log : Log} {kind : EventType} {e : kind.Event}
    {x : Bytes} {before before' : List (Except String String)} {whole : Except String String}
    (carries : Carries alloy log kind e)
    (declared : (declaredRenderings alloy.serde kind e).map Prod.snd =
      before ++ [valueToString alloy.serde x])
    (produced : ∀ inner : PrimitiveLog kind.Event, inner.data = e →
      (columns alloy.serde kind inner).map Prod.snd = before' ++ [whole])
    (struct : ∀ text, whole = .ok text → ∃ rest, text = "\x7b" ++ rest) :
    ¬ Faithful alloy log kind e := by
  intro faithful
  obtain ⟨cols, asDeclared, decoded⟩ := faithful.columns
  obtain ⟨inner, data, output⟩ := decodeLog_carries renders carries
  have gathered : gather (columns alloy.serde kind inner) = .ok cols := by
    rw [decoded] at output
    cases branch : gather (columns alloy.serde kind inner) with
    | error e => simp [branch, Functor.map, Except.map] at output
    | ok cols' => simpa [branch, Functor.map, Except.map, eq_comm] using output
  have same := (gather_values asDeclared).trans (gather_values gathered).symm
  rw [declared, produced inner data] at same
  obtain ⟨-, last⟩ := List.append_inj' same rfl
  have last : valueToString alloy.serde x = whole := (List.cons.inj last).1
  obtain ⟨text, shown⟩ := render_ok renders (.bytes x)
  obtain ⟨rest, object⟩ := struct text (last ▸ shown)
  exact isHex_ne_object (bytes_text_hex renders shown) object

theorem market_not_faithful {log : Log} {e : MarketPrepared}
    (carries : Carries alloy log .marketPrepared e) : ¬ Faithful alloy log .marketPrepared e := by
  have declared : (declaredRenderings alloy.serde .marketPrepared e).map Prod.snd =
      [valueToString alloy.serde e.conditionId, valueToString alloy.serde e.creator,
        valueToString alloy.serde e.marketId] ++ [valueToString alloy.serde e.data] := rfl
  have produced : ∀ inner : PrimitiveLog MarketPrepared, inner.data = e →
      (columns alloy.serde .marketPrepared inner).map Prod.snd =
        [valueToString alloy.serde e.conditionId, valueToString alloy.serde e.creator,
          valueToString alloy.serde e.marketId] ++ [valueToString alloy.serde e] := by
    intro inner data
    subst data
    rfl
  exact struct_not_faithful renders carries declared produced
    (fun text => struct_text renders rfl)

theorem question_not_faithful {log : Log} {e : QuestionPrepared}
    (carries : Carries alloy log .questionPrepared e) :
    ¬ Faithful alloy log .questionPrepared e := by
  have declared : (declaredRenderings alloy.serde .questionPrepared e).map Prod.snd =
      [valueToString alloy.serde e.questionId, valueToString alloy.serde e.conditionId,
        valueToString alloy.serde e.creator] ++ [valueToString alloy.serde e.data] := rfl
  have produced : ∀ inner : PrimitiveLog QuestionPrepared, inner.data = e →
      (columns alloy.serde .questionPrepared inner).map Prod.snd =
        [valueToString alloy.serde e.questionId, valueToString alloy.serde e.conditionId,
          valueToString alloy.serde e.creator] ++ [valueToString alloy.serde e] := by
    intro inner data
    subst data
    rfl
  exact struct_not_faithful renders carries declared produced
    (fun text => struct_text renders rfl)

/-- Normalisation is faithful for exactly the eight events without a field named `data`. -/
theorem faithful_iff {log : Log} {kind : EventType} {e : kind.Event}
    (carries : Carries alloy log kind e) :
    Faithful alloy log kind e ↔ kind ≠ .marketPrepared ∧ kind ≠ .questionPrepared := by
  constructor
  · intro faithful
    constructor
    · rintro rfl
      exact market_not_faithful renders carries faithful
    · rintro rfl
      exact question_not_faithful renders carries faithful
  · rintro ⟨market, question⟩
    obtain ⟨cols, asDeclared⟩ := declaredColumns_ok renders kind e
    obtain ⟨inner, data, output⟩ := decodeLog_carries renders carries
    have decoded : decodeLog alloy log =
        .ok (some { eventType := kind.name, columns := cols }) := by
      rw [output, columns_declared _ _ _ market question, data]
      change _ <$> declaredColumns alloy.serde kind e = _
      rw [asDeclared]
      rfl
    refine ⟨⟨cols, asDeclared, decoded⟩, ?_⟩
    intro kind' e' cols' asDeclared' decoded'
    have same := decoded.symm.trans decoded'
    simp only [Except.ok.injEq, Option.some.injEq, DecodedEvent.mk.injEq] at same
    obtain rfl : kind' = kind := EventType.name_injective same.1.symm
    rw [declaredColumns_inj renders asDeclared (same.2 ▸ asDeclared')]

end

def cancelled : OrderCancelled := { orderHash := ⟨7⟩ }

def cancelledLog : Log where
  inner := { address := ⟨1⟩,
             data := { topics := [Reference.signatureHash .orderCancelled, ⟨7⟩], data := ⟨[]⟩ } }
  blockNumber := some 10
  transactionHash := some ⟨2⟩
  logIndex := some 0

theorem faithful_cancelled :
    Faithful Reference.alloy cancelledLog .orderCancelled cancelled ↔
      EventType.orderCancelled ≠ .marketPrepared ∧ EventType.orderCancelled ≠ .questionPrepared :=
  faithful_iff Reference.renders ⟨rfl, _, rfl, rfl⟩

def prepared : MarketPrepared :=
  { conditionId := ⟨3⟩, creator := ⟨4⟩, marketId := ⟨5⟩, data := ⟨[0xab, 0xcd]⟩ }

/-- The bytes `abcd` behind their offset and length words. -/
def preparedLog : Log where
  inner := { address := ⟨1⟩,
             data := { topics := [Reference.signatureHash .marketPrepared, ⟨3⟩, ⟨4⟩, ⟨5⟩],
                       data := ⟨List.replicate 31 0 ++ [32] ++ List.replicate 31 0 ++ [2] ++
                         [0xab, 0xcd] ++ List.replicate 30 0⟩ } }
  blockNumber := some 10
  transactionHash := some ⟨2⟩
  logIndex := some 0

/-- The whole event is stored in the column of its last field. -/
theorem prepared_market_unfaithful :
    Carries Reference.alloy preparedLog .marketPrepared prepared ∧
      ¬ Faithful Reference.alloy preparedLog .marketPrepared prepared := by
  have carries : Carries Reference.alloy preparedLog .marketPrepared prepared :=
    ⟨rfl, _, rfl, rfl⟩
  exact ⟨carries, market_not_faithful Reference.renders carries⟩

end PolymarketIndexer.Normalisation
