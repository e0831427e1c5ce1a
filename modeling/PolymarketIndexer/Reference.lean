import PolymarketIndexer.Decode
import PolymarketIndexer.Library.DecimalText
import PolymarketIndexer.Library.HexText
import Mathlib.Data.List.Sort

/-! # The libraries, concretely

The decoder's libraries are parameters of the model. Here is one instance of them:
the real event signatures, ABI reading word by word, `0x` texts and compact JSON. It
satisfies everything `Renders` asks of a library.
-/

namespace PolymarketIndexer.Reference

def signatureHash : EventType → B256
  | .conditionPreparation =>
      ⟨0xab3760c3bd2bb38b5bcf54dc79802ed67338b4cf29f3054ded67ed24661e4177⟩
  | .positionSplit => ⟨0x2e6bb91f8cbcda0c93623c54d0403a43514fabc40084ec96b6d5379a74786298⟩
  | .positionsMerge => ⟨0x6f13ca62553fcc2bcd2372180a43949c1e4cebba603901ede2f4e14f36b282ca⟩
  | .payoutRedemption => ⟨0x2682012a4a4f1973119f1c9b90745d1bd91fa2bab387344f044cb3586864d18d⟩
  | .orderFilled => ⟨0x0879b0558395467873941b2f8d0740d9a652693e0e10188d792e6a5d9c3bef72⟩
  | .ordersMatched => ⟨0x0ac43ae443462c4ede260ad38899e594fa78238f3252539851b7b4395f3b043e⟩
  | .orderCancelled => ⟨0x5152abf959f6564662358c2e52b702259b78bac5ee7842a0f01937e670efcc7d⟩
  | .marketPrepared => ⟨0xf059ab16d1ca60e123eab60e3c02b68faf060347c701a5d14885a8e1def7b3a8⟩
  | .questionPrepared => ⟨0xece4f6d9428f221b6c03d0e7a92cab4740b7d3a237987ee1abe3339aec6bec18⟩
  | .positionsConverted => ⟨0x38dcf08fc1d4465e015d7b9f797959e753b923a751b2ed86b583bda7ea25f157⟩

theorem signatureHash_injective {kind kind' : EventType}
    (h : signatureHash kind = signatureHash kind') : kind = kind' := by
  have table : ∀ k ∈ EventType.all, ∀ k' ∈ EventType.all,
      signatureHash k = signatureHash k' → k = k' := by decide
  exact table kind kind.mem_all kind' kind'.mem_all h

section Abi

/-- The 32-byte word at a byte offset. -/
def word (data : List UInt8) (offset : Nat) : Except String Nat :=
  let slice := (data.drop offset).take 32
  if slice.length = 32 then
    .ok (slice.foldl (fun value byte => value * 256 + byte.toNat) 0)
  else .error "buffer overrun while deserializing"

def bytes32 (value : Nat) : B256 := ⟨BitVec.ofNat 256 value⟩
def address (value : Nat) : Address := ⟨BitVec.ofNat 160 value⟩
def uint256 (value : Nat) : U256 := ⟨BitVec.ofNat 256 value⟩

/-- A dynamic array: its head word is the offset of its length and elements. -/
def uint256Array (data : List UInt8) (head : Nat) : Except String (List U256) := do
  let start ← word data head
  let count ← word data start
  if data.length < start + 32 + 32 * count then
    .error "buffer overrun while deserializing"
  else (List.range count).mapM (fun i => uint256 <$> word data (start + 32 + 32 * i))

def byteString (data : List UInt8) (head : Nat) : Except String Bytes := do
  let start ← word data head
  let length ← word data start
  let slice := (data.drop (start + 32)).take length
  if slice.length = length then .ok ⟨slice⟩ else .error "buffer overrun while deserializing"

/-- The event in the indexed topics and the data of a log; further topics are passed over. -/
def decodeEvent : (kind : EventType) → List Nat → List UInt8 → Except String kind.Event
  | .conditionPreparation, a :: b :: c :: _, data => do
      return { conditionId := bytes32 a, oracle := address b, questionId := bytes32 c,
               outcomeSlotCount := uint256 (← word data 0) }
  | .positionSplit, a :: b :: c :: _, data => do
      return { collateralToken := address a, parentCollectionId := address b,
               conditionId := bytes32 c, partition := bytes32 (← word data 0),
               amounts := ← uint256Array data 32, amount := uint256 (← word data 64) }
  | .positionsMerge, a :: b :: c :: _, data => do
      return { collateralToken := address a, parentCollectionId := address b,
               conditionId := bytes32 c, partition := bytes32 (← word data 0),
               amounts := ← uint256Array data 32, amount := uint256 (← word data 64) }
  | .payoutRedemption, a :: b :: c :: _, data => do
      return { redeemer := address a, collateralToken := address b,
               parentCollectionId := bytes32 c, conditionId := bytes32 (← word data 0),
               indexSets := ← uint256Array data 32, amount := uint256 (← word data 64) }
  | .orderFilled, a :: b :: c :: _, data => do
      return { orderHash := bytes32 a, maker := address b, taker := address c,
               makerFillAmount := uint256 (← word data 0),
               takerFillAmount := uint256 (← word data 32),
               makerFee := uint256 (← word data 64), takerFee := uint256 (← word data 96) }
  | .ordersMatched, a :: b :: _, _ => do
      return { takerOrderHash := bytes32 a, makerOrderHash := bytes32 b }
  | .orderCancelled, a :: _, _ => .ok { orderHash := bytes32 a }
  | .marketPrepared, a :: b :: c :: _, data => do
      return { conditionId := bytes32 a, creator := address b, marketId := uint256 c,
               data := ← byteString data 0 }
  | .questionPrepared, a :: b :: c :: _, data => do
      return { questionId := bytes32 a, conditionId := bytes32 b, creator := address c,
               data := ← byteString data 0 }
  | .positionsConverted, a :: b :: _, data => do
      return { conditionId := bytes32 a, stakeholder := address b,
               amount := uint256 (← word data 0), fee := uint256 (← word data 32) }
  | _, _, _ => .error "topic list length mismatch"

def logDecode (kind : EventType) (log : Log) : Except String (RpcLog kind.Event) := do
  let indexed := log.inner.data.topics.tail.map (fun topic => topic.word.toNat)
  let event ← decodeEvent kind indexed log.inner.data.data.data
  return { inner := { address := log.inner.address, data := event },
           blockNumber := log.blockNumber, transactionHash := log.transactionHash,
           logIndex := log.logIndex }

end Abi

section Text

def hexText (digits : List Char) : String := String.ofList ('0' :: 'x' :: digits)

theorem hexText_injective {xs ys : List Char} (h : hexText xs = hexText ys) : xs = ys := by
  have := congrArg String.toList h
  simpa [hexText] using this

def quoted (text : List Char) : List Char :=
  '"' :: text.flatMap (fun c => if c = '"' ∨ c = '\\' then ['\\', c] else [c]) ++ ['"']

def joined : List (List Char) → List Char
  | [] => []
  | x :: xs => x ++ xs.flatMap (fun y => ',' :: y)

mutual

/-- Compact JSON text; the keys of an object come in order. -/
def json : Value → List Char
  | .string text => quoted text.toList
  | .array items => '[' :: joined (jsonItems items) ++ [']']
  | .object fields =>
      let entries := (jsonFields fields).insertionSort (fun a b => a.1 ≤ b.1)
      '\x7b' :: joined (entries.map Prod.snd) ++ ['\x7d']

def jsonItems : List Value → List (List Char)
  | [] => []
  | item :: items => json item :: jsonItems items

def jsonFields : List (String × Value) → List (String × List Char)
  | [] => []
  | (key, value) :: fields => (key, quoted key.toList ++ ':' :: json value) :: jsonFields fields

end

theorem jsonItems_strings (texts : List String) :
    jsonItems (texts.map .string) = texts.map (fun text => quoted text.toList) := by
  induction texts with
  | nil => rfl
  | cons text texts ih => simp only [List.map_cons, jsonItems, json, ih]

theorem isHex_plain {text : String} (hex : IsHex text) :
    '"' ∉ text.toList ∧ quoted text.toList = '"' :: text.toList ++ ['"'] := by
  obtain ⟨digits, rfl, within⟩ := hex
  have table : "0123456789abcdef".toList.all (fun c => c ≠ '"' ∧ c ≠ '\\') = true := rfl
  have table : ∀ c ∈ "0123456789abcdef".toList, c ≠ '"' ∧ c ≠ '\\' :=
    fun c member => of_decide_eq_true (List.all_eq_true.mp table c member)
  have plain : ∀ c ∈ '0' :: 'x' :: digits, c ≠ '"' ∧ c ≠ '\\' := by
    intro c member
    rcases List.mem_cons.mp member with rfl | member
    · decide
    · rcases List.mem_cons.mp member with rfl | member
      · decide
      · exact table c (within c member)
  rw [String.toList_ofList]
  constructor
  · intro member
    exact (plain _ member).1 rfl
  · have kept : ('0' :: 'x' :: digits).flatMap
        (fun c => if c = '"' ∨ c = '\\' then ['\\', c] else [c]) =
        ('0' :: 'x' :: digits).flatMap (fun c => [c]) := by
      apply List.flatMap_congr
      intro c member
      rw [if_neg (fun special => special.elim (plain c member).1 (plain c member).2)]
    rw [quoted, kept, List.flatMap_singleton']

/-- The items after the first, up to the closing bracket, can be read back. -/
theorem items_injective {xs ys : List String} (hx : ∀ t ∈ xs, IsHex t) (hy : ∀ t ∈ ys, IsHex t)
    (h : (xs.map (fun t => quoted t.toList)).flatMap (fun y => ',' :: y) ++ [']'] =
      (ys.map (fun t => quoted t.toList)).flatMap (fun y => ',' :: y) ++ [']']) : xs = ys := by
  induction xs generalizing ys with
  | nil =>
      cases ys with
      | nil => rfl
      | cons y ys => simp at h
  | cons x xs ih =>
      cases ys with
      | nil => simp at h
      | cons y ys =>
          obtain ⟨freex, plainx⟩ := isHex_plain (hx x List.mem_cons_self)
          obtain ⟨freey, plainy⟩ := isHex_plain (hy y List.mem_cons_self)
          simp only [List.map_cons, List.flatMap_cons, plainx, plainy, List.cons_append,
            List.append_assoc, List.cons.injEq, true_and, List.nil_append] at h
          obtain ⟨same, rest⟩ := DecimalText.append_cons_inj freex freey h
          rw [String.toList_inj.mp same, ih (fun t m => hx t (List.mem_cons_of_mem _ m))
            (fun t m => hy t (List.mem_cons_of_mem _ m)) rest]

theorem array_injective {xs ys : List String} (hx : ∀ t ∈ xs, IsHex t) (hy : ∀ t ∈ ys, IsHex t)
    (h : json (.array (xs.map .string)) = json (.array (ys.map .string))) : xs = ys := by
  simp only [json, jsonItems_strings] at h
  have opened : joined (xs.map (fun text => quoted text.toList)) ++ [']'] =
      joined (ys.map (fun text => quoted text.toList)) ++ [']'] := (List.cons.inj h).2
  cases xs with
  | nil =>
      cases ys with
      | nil => rfl
      | cons y ys => simp [joined, quoted] at opened
  | cons x xs =>
      cases ys with
      | nil => simp [joined, quoted] at opened
      | cons y ys =>
          -- a comma in front makes the first item like the others
          apply items_injective hx hy
          simpa only [joined, List.map_cons, List.flatMap_cons, List.cons_append,
            List.append_assoc, List.cons.injEq, true_and] using opened

theorem fixed_hex (width n : Nat) : ∀ c ∈ HexText.fixed width n, c ∈ "0123456789abcdef".toList := by
  have table : ∀ k < 16, Nat.digitChar k ∈ "0123456789abcdef".toList := by decide
  induction width generalizing n with
  | zero => simp [HexText.fixed]
  | succ width ih =>
      intro c member
      rcases List.mem_append.mp member with front | last
      · exact ih _ c front
      · obtain rfl := List.mem_singleton.mp last
        exact table _ (Nat.mod_lt _ (by decide))

theorem minimal_hex (n : Nat) : ∀ c ∈ HexText.minimal n, c ∈ "0123456789abcdef".toList := by
  have table : ∀ k < 16, Nat.digitChar k ∈ "0123456789abcdef".toList := by decide
  induction n using Nat.strongRecOn with
  | ind n ih =>
      intro c member
      by_cases small : n < 16
      · rw [HexText.minimal, Nat.toDigits_of_lt_base small] at member
        obtain rfl := List.mem_singleton.mp member
        exact table _ small
      · rw [HexText.minimal, Nat.toDigits_of_base_le (by decide) (by omega)] at member
        rcases List.mem_append.mp member with front | last
        · exact ih (n / 16) (by omega) c front
        · obtain rfl := List.mem_singleton.mp last
          exact table _ (Nat.mod_lt _ (by decide))

end Text

def serde : Serde where
  b256 x := .ok (.string (hexText (HexText.fixed 64 x.word.toNat)))
  address x := .ok (.string (hexText (HexText.fixed 40 x.word.toNat)))
  u256 x := .ok (.string (hexText (HexText.minimal x.word.toNat)))
  bytes x := .ok (.string (hexText (HexText.bytes x.data)))
  display value := String.ofList (json value)

def hexValue (c : Char) : Nat := if c.isDigit then c.toNat - 48 else c.toLower.toNat - 87

def addressFromStr (text : String) : Except String Address :=
  let digits := text.toList.drop 2
  if digits.length = 40 then
    .ok (address (digits.foldl (fun value c => value * 16 + hexValue c) 0))
  else .error "invalid string length"

def alloy : Alloy where
  signatureHash := signatureHash
  logDecode := logDecode
  serde := serde
  hashToString x := hexText (HexText.fixed 64 x.word.toNat)
  addressFromStr := addressFromStr

theorem addresses_parse : contractAddresses alloy.addressFromStr = .ok
    [⟨0x4D97DCd97eC945f40cF65F87097ACe5EA0476045⟩, ⟨0x4bFb41d5B3570DeFd03C39a9A4D8dE6Bd8B8982E⟩,
      ⟨0xd91E80cF2E7be2e162c6513ceD06f1dD0dA35296⟩] := (rfl)

theorem renders : Renders alloy where
  signatures _ _ := signatureHash_injective
  bytes32 x := ⟨_, rfl, _, rfl, fixed_hex _ _⟩
  address x := ⟨_, rfl, _, rfl, fixed_hex _ _⟩
  uint256 x := ⟨_, rfl, _, rfl, minimal_hex _⟩
  bytes x := by
    refine ⟨_, rfl, _, rfl, ?_⟩
    intro c member
    obtain ⟨b, -, inByte⟩ := List.mem_flatMap.mp member
    exact fixed_hex _ _ c inByte
  bytes32_inj x y h := by
    have same := hexText_injective (Value.string.inj (Except.ok.inj h))
    have := HexText.fixed_injective (x.word.isLt) (y.word.isLt) same
    cases x; cases y
    exact congrArg B256.mk (BitVec.eq_of_toNat_eq this)
  address_inj x y h := by
    have same := hexText_injective (Value.string.inj (Except.ok.inj h))
    have := HexText.fixed_injective (x.word.isLt) (y.word.isLt) same
    cases x; cases y
    exact congrArg Address.mk (BitVec.eq_of_toNat_eq this)
  uint256_inj x y h := by
    have same := hexText_injective (Value.string.inj (Except.ok.inj h))
    have := HexText.minimal_injective same
    cases x; cases y
    exact congrArg U256.mk (BitVec.eq_of_toNat_eq this)
  bytes_inj x y h := by
    have same := hexText_injective (Value.string.inj (Except.ok.inj h))
    cases x; cases y
    exact congrArg Bytes.mk (HexText.bytes_injective same)
  array_inj xs ys hx hy h := by
    have same : json (.array (xs.map .string)) = json (.array (ys.map .string)) := by
      simpa [alloy, serde] using congrArg String.toList h
    exact array_injective hx hy same
  object fields := by
    refine ⟨String.ofList ((json (.object fields)).tail), ?_⟩
    apply String.toList_inj.mp
    simp [alloy, serde, json]

end PolymarketIndexer.Reference
