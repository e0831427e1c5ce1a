import PolymarketIndexer.Decode
import PolymarketIndexer.Metrics
import PolymarketIndexer.Storage.Parquet
import PolymarketIndexer.Frontfill.Config
import PolymarketIndexer.Library.Machine

/-! # The live indexer

The run is a loop around a loop: connect and subscribe, then take logs off the stream
until it ends. A phase is a point where the run can be suspended, so anything from
outside can happen between two steps. `select!` polls its branches in any order: a log
can be taken before the shutdown listener of this turn exists, or while it has a signal.
A signal before the first listener ends the process and with it the run.

The trace records what the run did. It is not part of the program.
-/

namespace PolymarketIndexer.Frontfill

/-- A log off the stream with its complete metadata. -/
structure Taken where
  log : Log
  blockNumber : UInt64
  txHash : String
  logIndex : UInt64

def Taken.call (taken : Taken) (decoded : DecodedEvent) : WriteCall where
  eventType := decoded.eventType
  blockNumber := taken.blockNumber
  txHash := taken.txHash
  logIndex := taken.logIndex
  columns := decoded.columns

inductive Phase where
  | starting
  | connecting (ws : WsConnect)
  | subscribing (filter : Filter)
  | backoff (seconds : Nat)
  /-- The listener of this turn, once polled, and whether it has a signal. -/
  | selecting (listener : Option Bool)
  | observing (taken : Taken)
  | recording (taken : Taken)
  | locking (taken : Taken)
  | rotating (taken : Taken)
  | observingType (taken : Taken) (decoded : DecodedEvent)
  | recordingType (taken : Taken) (decoded : DecodedEvent)
  | writing (taken : Taken) (decoded : DecodedEvent)
  | closing
  /-- Waiting for the metrics server to stop. -/
  | exiting (result : Except String Unit)
  | returned (result : Except String Unit)

/-- What the run did, with the answers to the sink's calls. A run is refused when it cannot
build its connection or listen for Ctrl-C. -/
inductive Effect (ω : Type) where
  | received (log : Log)
  | rotated (io : ω)
  | wrote (io : ω) (call : WriteCall)
  | closed (io : ω)
  | sinkFailed (error : String)
  | refused (error : String)

structure State (σ ω : Type) where
  phase : Phase
  reconnectAttempt : Nat
  nextRotationBlock : Option UInt64
  metrics : Option FrontfillMetrics
  sink : σ
  handlerInstalled : Bool
  signalled : Bool
  trace : List (Effect ω)

inductive Input (ω : Type) where
  | connect
  | connected (result : Except String Unit)
  | subscribed (result : Except String Unit)
  | slept
  | pollCtrlC (result : Except String Unit)
  | next (log : Option Log)
  | shutdown
  | observe (unixSeconds : UInt64)
  | record (seen now : Instant)
  | lock
  | sink (io : ω)
  | metricsStopped
  | signal

section Parts

variable {σ ω : Type} (s : State σ ω)

def State.measure (change : FrontfillMetrics → FrontfillMetrics) : State σ ω :=
  { s with metrics := s.metrics.map change }

def State.note (effect : Effect ω) : State σ ω := { s with trace := s.trace ++ [effect] }

/-- A failed attempt or an ended stream: wait, longer each time. -/
def State.backOff : State σ ω :=
  { s with
    phase := .backoff (reconnectDelay s.reconnectAttempt)
    reconnectAttempt := min (s.reconnectAttempt + 1) (2 ^ 32 - 1) }

/-- The head of the inner loop. -/
def State.select : State σ ω := { s with phase := .selecting none }

/-- An error that is passed on at once. -/
def State.leave (error : String) : State σ ω := { s with phase := .returned (.error error) }

/-- An error with a counter of its own: the metrics server is stopped first. -/
def State.fail (count : FrontfillMetrics → FrontfillMetrics) (error : String) : State σ ω :=
  { s with
    metrics := s.metrics.map (fun metrics => { count metrics with wsConnected := false })
    phase := if s.metrics.isSome then .exiting (.error error) else .returned (.error error) }

def countMissingMetadata (metrics : FrontfillMetrics) : FrontfillMetrics :=
  { metrics with missingMetadataTotal := metrics.missingMetadataTotal + 1 }

def countDecodeError (metrics : FrontfillMetrics) : FrontfillMetrics :=
  { metrics with decodeErrorsTotal := metrics.decodeErrorsTotal + 1 }

def countWriteError (metrics : FrontfillMetrics) : FrontfillMetrics :=
  { metrics with writeErrorsTotal := metrics.writeErrorsTotal + 1 }

def countRotation (metrics : FrontfillMetrics) : FrontfillMetrics :=
  { metrics with rotateTotal := metrics.rotateTotal + 1 }

def observeDuration (metrics : FrontfillMetrics) : FrontfillMetrics :=
  { metrics with sinkWriteSeconds := metrics.sinkWriteSeconds + 1 }

def countShutdown (metrics : FrontfillMetrics) : FrontfillMetrics :=
  { metrics with shutdownTotal := metrics.shutdownTotal + 1, wsConnected := false }

end Parts

section Run

variable {σ ω : Type} [EventSink σ ω] (config : FrontfillConfig) (alloy : Alloy)

/-- The metadata of a log, checked in order. -/
def checkMetadata (log : Log) : Except String Taken :=
  match log.blockNumber with
  | none => .error "frontfill received log missing block_number"
  | some blockNumber =>
      match log.transactionHash with
      | none => .error "frontfill received log missing transaction_hash"
      | some txHash =>
          match log.logIndex with
          | none => .error "frontfill received log missing log_index"
          | some logIndex =>
              .ok { log := log, blockNumber := blockNumber, txHash := alloy.hashToString txHash,
                    logIndex := logIndex }

def State.take (s : State σ ω) (log : Log) : State σ ω :=
  match checkMetadata alloy log with
  | .error error => (s.note (.received log)).fail countMissingMetadata error
  | .ok taken =>
      { s.note (.received log) with
        phase := if s.metrics.isSome then .observing taken else .locking taken }

def State.decode (s : State σ ω) (taken : Taken) : State σ ω :=
  match decodeLog alloy taken.log with
  | .error error => s.fail countDecodeError error
  | .ok none => s.select
  | .ok (some decoded) =>
      { s with phase :=
          if s.metrics.isSome then .observingType taken decoded else .writing taken decoded }

/-- The next rotation is due `flush_blocks` after this log. -/
def State.openWindow (s : State σ ω) (taken : Taken) : State σ ω :=
  { s with nextRotationBlock := some (U64.saturatingAdd taken.blockNumber config.flushBlocks) }

/-- The reconnect loop, up to the stream. -/
def reconnectStep (s : State σ ω) : Input ω → Option (State σ ω)
  | .connect =>
      match s.phase, buildWsConnect config with
      | .starting, .error error => some ((s.note (.refused error)).leave error)
      | .starting, .ok ws => some { s with phase := .connecting ws }
      | _, _ => none
  | .connected result =>
      match s.phase, result, buildFilter alloy.addressFromStr config.startBlock with
      | .connecting _, .error _, _ => some s.backOff
      | .connecting _, .ok _, .error error => some ((s.note (.refused error)).leave error)
      | .connecting _, .ok _, .ok filter => some { s with phase := .subscribing filter }
      | _, _, _ => none
  | .subscribed result =>
      match s.phase, result with
      | .subscribing _, .error _ => some s.backOff
      | .subscribing _, .ok _ =>
          some ({ s with reconnectAttempt := 0 }.measure
            (fun metrics => { metrics with wsConnected := true })).select
      | _, _ => none
  | .slept =>
      match s.phase with
      | .backoff _ => some { s with phase := .starting }
      | _ => none
  | _ => none

/-- The `select!` on the stream and the shutdown signal. -/
def selectStep (s : State σ ω) : Input ω → Option (State σ ω)
  | .pollCtrlC result =>
      match s.phase, result with
      | .selecting none, .error error => some ((s.note (.refused error)).leave error)
      | .selecting none, .ok _ =>
          some { s with phase := .selecting (some false), handlerInstalled := true }
      | _, _ => none
  | .next log =>
      match s.phase, log with
      | .selecting _, some log => some (s.take alloy log)
      | .selecting _, none =>
          some (s.measure (fun metrics => { metrics with wsConnected := false })).backOff
      | _, _ => none
  | .shutdown =>
      match s.phase with
      | .selecting (some true) => some { s with phase := .closing }
      | _ => none
  | _ => none

/-- The calls to the sink: rotation, write and the close of a shutdown. -/
def sinkStep (s : State σ ω) (io : ω) : Option (State σ ω) :=
  match s.phase with
  | .rotating taken =>
      match (EventSink.rotate io).run s.sink with
      | (.error error, sink) =>
          some (({ s with sink := sink }.note (.sinkFailed error)).leave error)
      | (.ok _, sink) =>
          some (((({ s with sink := sink }.note (.rotated io)).measure countRotation).openWindow
            config taken).decode alloy taken)
  | .writing taken decoded =>
      match (EventSink.writeEvent io (taken.call decoded)).run s.sink with
      | (.error error, sink) =>
          some ((({ s with sink := sink }.note (.sinkFailed error)).measure
            observeDuration).fail countWriteError error)
      | (.ok _, sink) =>
          some ((({ s with sink := sink }.note (.wrote io (taken.call decoded))).measure
            observeDuration).select)
  | .closing =>
      match (EventSink.close io).run s.sink with
      | (.error error, sink) =>
          some (({ s with sink := sink }.note (.sinkFailed error)).leave error)
      | (.ok _, sink) =>
          let closed := ({ s with sink := sink }.note (.closed io)).measure countShutdown
          some { closed with
            phase := if s.metrics.isSome then .exiting (.ok ()) else .returned (.ok ()) }
  | _ => none

/-- From a log with its metadata to its write. -/
def processStep (s : State σ ω) : Input ω → Option (State σ ω)
  | .observe unixSeconds =>
      match s.phase with
      | .observing taken =>
          some { s.measure (fun metrics =>
              metrics.observeLogCounters taken.blockNumber unixSeconds) with
            phase := .recording taken }
      | .observingType taken decoded =>
          some { s.measure (fun metrics =>
              metrics.observeDecodedTypeCounters decoded.eventType) with
            phase := .recordingType taken decoded }
      | _ => none
  | .record seen now =>
      match s.phase with
      | .recording taken =>
          some { s.measure (fun metrics => metrics.observeLogRates seen now) with
            phase := .locking taken }
      | .recordingType taken decoded =>
          some { s.measure (fun metrics =>
              metrics.observeDecodedTypeRates decoded.eventType seen now) with
            phase := .writing taken decoded }
      | _ => none
  | .lock =>
      match s.phase, s.nextRotationBlock with
      | .locking taken, some target =>
          if target ≤ taken.blockNumber then some { s with phase := .rotating taken }
          else some (s.decode alloy taken)
      | .locking taken, none => some ((s.openWindow config taken).decode alloy taken)
      | _, _ => none
  | .sink io => sinkStep config alloy s io
  | .metricsStopped =>
      match s.phase with
      | .exiting result => some { s with phase := .returned result }
      | _ => none
  | _ => none

/-- Ctrl-C reaches the listener of the current turn, if there is one. -/
def signalStep (s : State σ ω) : Option (State σ ω) :=
  match s.phase with
  | .returned _ => none
  | .selecting (some _) =>
      if s.handlerInstalled then some { s with signalled := true, phase := .selecting (some true) }
      else none
  | _ => if s.handlerInstalled then some { s with signalled := true } else none

def step (s : State σ ω) (input : Input ω) : Option (State σ ω) :=
  match input with
  | .connect | .connected _ | .subscribed _ | .slept => reconnectStep config alloy s input
  | .pollCtrlC _ | .next _ | .shutdown => selectStep alloy s input
  | .observe _ | .record _ _ | .lock | .sink _ | .metricsStopped =>
      processStep config alloy s input
  | .signal => signalStep s

def metricsRuntime (runtime : Except String FrontfillMetrics) :
    Except String (Option FrontfillMetrics) :=
  if config.metricsEnabled then some <$> runtime else .ok none

/-- The guards of `run`, up to the reconnect loop. -/
def launch (storage : Except String σ) (runtime : Except String FrontfillMetrics) :
    Except String (State σ ω) := do
  if config.flushBlocks = 0 then
    throw "flush-blocks must be greater than 0"
  let sink ← storage
  let metrics ← metricsRuntime config runtime
  return {
    phase := .starting
    reconnectAttempt := 0
    nextRotationBlock := none
    metrics := metrics.map (fun metrics => { metrics with wsConnected := false })
    sink := sink
    handlerInstalled := false
    signalled := false
    trace := [] }

end Run

end PolymarketIndexer.Frontfill
