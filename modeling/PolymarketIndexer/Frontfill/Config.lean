import PolymarketIndexer.Contracts

/-! # Connecting the live indexer

The connection and the filter of a subscription are built from the configuration alone,
again for every attempt. The filter starts at the configured block, or at the head of
the chain when there is none.
-/

namespace PolymarketIndexer.Frontfill

structure FrontfillConfig where
  flushBlocks : UInt64
  startBlock : Option UInt64
  rpcUrl : String
  rpcAuthKey : Option String
  rpcAuthHeader : String
  rpcAuthScheme : String
  metricsEnabled : Bool

inductive BlockNumberOrTag where
  | number (block : UInt64)
  | latest
  deriving DecidableEq, Repr

structure Filter where
  address : List Address
  fromBlock : BlockNumberOrTag
  deriving DecidableEq, Repr

inductive Authorization where
  | bearer (token : String)
  | raw (value : String)
  deriving DecidableEq, Repr

structure WsConnect where
  url : String
  auth : Option Authorization
  deriving DecidableEq, Repr

def buildFilter (fromStr : String → Except String Address) (startBlock : Option UInt64) :
    Except String Filter := do
  let address ← contractAddresses fromStr
  return match startBlock with
    | some block => { address := address, fromBlock := .number block }
    | none => { address := address, fromBlock := .latest }

/-- A filter can be built from the addresses, whatever the start block. -/
theorem buildFilter_ok {fromStr : String → Except String Address} {addresses : List Address}
    (parsed : contractAddresses fromStr = .ok addresses) (startBlock : Option UInt64) :
    ∃ filter, buildFilter fromStr startBlock = .ok filter := by
  rw [buildFilter, parsed]
  exact ⟨_, rfl⟩

/-- Seconds to wait before an attempt: doubled each time, up to 32. -/
def reconnectDelay (attempt : Nat) : Nat := 1 <<< min attempt 5

def eqIgnoreAsciiCase (a b : String) : Bool := a.map Char.toLower == b.map Char.toLower

def buildWsAuth (key : Option String) (headerName scheme : String) :
    Except String (Option Authorization) :=
  match key with
  | none => .ok none
  | some key =>
      if key.isEmpty then .ok none
      else if !eqIgnoreAsciiCase headerName "authorization" then
        .error "frontfill websocket auth supports only the Authorization header"
      else if scheme.isEmpty then .ok (some (.raw key))
      else if eqIgnoreAsciiCase scheme "bearer" then .ok (some (.bearer key))
      else .ok (some (.raw s!"{scheme} {key}"))

def buildWsConnect (config : FrontfillConfig) : Except String WsConnect := do
  let auth ← buildWsAuth config.rpcAuthKey config.rpcAuthHeader config.rpcAuthScheme
  return { url := config.rpcUrl, auth := auth }

end PolymarketIndexer.Frontfill
