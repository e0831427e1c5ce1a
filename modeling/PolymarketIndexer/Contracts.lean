import PolymarketIndexer.Primitives

/-! # Contract events

The ten events declared for the watched contracts, each with its fields in
declaration order, and the addresses of the three contracts.
-/

namespace PolymarketIndexer

structure ConditionPreparation where
  conditionId : B256
  oracle : Address
  questionId : B256
  outcomeSlotCount : U256
  deriving DecidableEq, Repr

structure PositionSplit where
  collateralToken : Address
  parentCollectionId : Address
  conditionId : B256
  partition : B256
  amounts : List U256
  amount : U256
  deriving DecidableEq, Repr

structure PositionsMerge where
  collateralToken : Address
  parentCollectionId : Address
  conditionId : B256
  partition : B256
  amounts : List U256
  amount : U256
  deriving DecidableEq, Repr

structure PayoutRedemption where
  redeemer : Address
  collateralToken : Address
  parentCollectionId : B256
  conditionId : B256
  indexSets : List U256
  amount : U256
  deriving DecidableEq, Repr

structure OrderFilled where
  orderHash : B256
  maker : Address
  taker : Address
  makerFillAmount : U256
  takerFillAmount : U256
  makerFee : U256
  takerFee : U256
  deriving DecidableEq, Repr

structure OrdersMatched where
  takerOrderHash : B256
  makerOrderHash : B256
  deriving DecidableEq, Repr

structure OrderCancelled where
  orderHash : B256
  deriving DecidableEq, Repr

structure MarketPrepared where
  conditionId : B256
  creator : Address
  marketId : U256
  data : Bytes
  deriving DecidableEq, Repr

structure QuestionPrepared where
  questionId : B256
  conditionId : B256
  creator : Address
  data : Bytes
  deriving DecidableEq, Repr

structure PositionsConverted where
  conditionId : B256
  stakeholder : Address
  amount : U256
  fee : U256
  deriving DecidableEq, Repr

inductive EventType where
  | conditionPreparation
  | positionSplit
  | positionsMerge
  | payoutRedemption
  | orderFilled
  | ordersMatched
  | orderCancelled
  | marketPrepared
  | questionPrepared
  | positionsConverted
  deriving DecidableEq, Repr

namespace EventType

abbrev Event : EventType → Type
  | conditionPreparation => ConditionPreparation
  | positionSplit => PositionSplit
  | positionsMerge => PositionsMerge
  | payoutRedemption => PayoutRedemption
  | orderFilled => OrderFilled
  | ordersMatched => OrdersMatched
  | orderCancelled => OrderCancelled
  | marketPrepared => MarketPrepared
  | questionPrepared => QuestionPrepared
  | positionsConverted => PositionsConverted

def name : EventType → String
  | conditionPreparation => "ConditionPreparation"
  | positionSplit => "PositionSplit"
  | positionsMerge => "PositionsMerge"
  | payoutRedemption => "PayoutRedemption"
  | orderFilled => "OrderFilled"
  | ordersMatched => "OrdersMatched"
  | orderCancelled => "OrderCancelled"
  | marketPrepared => "MarketPrepared"
  | questionPrepared => "QuestionPrepared"
  | positionsConverted => "PositionsConverted"

/-- Every event, in the order the decoder tries them. -/
def all : List EventType :=
  [conditionPreparation, positionSplit, positionsMerge, payoutRedemption, orderFilled,
    ordersMatched, orderCancelled, marketPrepared, questionPrepared, positionsConverted]

theorem mem_all (kind : EventType) : kind ∈ all := by
  cases kind <;> decide

theorem name_injective {kind kind' : EventType} (h : kind.name = kind'.name) :
    kind = kind' := by
  revert kind kind'
  have table : ∀ kind ∈ all, ∀ kind' ∈ all, name kind = name kind' → kind = kind' := by decide
  exact fun {kind kind'} => table kind (mem_all kind) kind' (mem_all kind')

end EventType

def CTF_ADDRESS : String := "0x4D97DCd97eC945f40cF65F87097ACe5EA0476045"
def CTF_EXCHANGE_ADDRESS : String := "0x4bFb41d5B3570DeFd03C39a9A4D8dE6Bd8B8982E"
def NEG_RISK_ADAPTER_ADDRESS : String := "0xd91E80cF2E7be2e162c6513ceD06f1dD0dA35296"

def contractAddresses (fromStr : String → Except String Address) :
    Except String (List Address) := do
  let ctf ← fromStr CTF_ADDRESS
  let exchange ← fromStr CTF_EXCHANGE_ADDRESS
  let adapter ← fromStr NEG_RISK_ADAPTER_ADDRESS
  return [ctf, exchange, adapter]

end PolymarketIndexer
