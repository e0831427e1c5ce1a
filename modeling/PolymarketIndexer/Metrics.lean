import PolymarketIndexer.Primitives
import PolymarketIndexer.Library.Unordered

/-! # The metrics of the live indexer

Counters count, gauges hold the number last given to them, and a histogram counts its
observations. The rate queues hold the readings of a monotonic clock in nanoseconds.
`observe_log` updates the counters first and the rates once it has their lock.
-/

namespace PolymarketIndexer

open Unordered

abbrev Instant := Int

structure RateState where
  total : List Instant
  byType : Map String (List Instant)

structure FrontfillMetrics where
  -- the gauge is an `f64`, which shows blocks from 2^53 on rounded
  currentBlockNumber : UInt64
  logsTotal : Nat
  logsByTypeTotal : Map String Nat
  logsPerMinute : Nat
  logsPerMinuteByType : Map String Nat
  decodeErrorsTotal : Nat
  writeErrorsTotal : Nat
  missingMetadataTotal : Nat
  rotateTotal : Nat
  shutdownTotal : Nat
  sinkWriteSeconds : Nat
  wsConnected : Bool
  lastLogUnixSeconds : UInt64
  rateState : RateState

namespace FrontfillMetrics

def register : FrontfillMetrics where
  currentBlockNumber := 0
  logsTotal := 0
  logsByTypeTotal := ∅
  logsPerMinute := 0
  logsPerMinuteByType := ∅
  decodeErrorsTotal := 0
  writeErrorsTotal := 0
  missingMetadataTotal := 0
  rotateTotal := 0
  shutdownTotal := 0
  sinkWriteSeconds := 0
  wsConnected := false
  lastLogUnixSeconds := 0
  rateState := { total := [], byType := ∅ }

end FrontfillMetrics

def sixtySeconds : Int := 60000000000

/-- Drop the readings before the cutoff from the front of each queue. -/
def pruneOldEntries (cutoff : Instant) (state : RateState) : RateState where
  total := state.total.dropWhile (fun timestamp => timestamp < cutoff)
  byType := state.byType.entries.foldl
    (fun queues entry => queues.insert entry.1
      (entry.2.dropWhile (fun timestamp => timestamp < cutoff))) state.byType

/-- Prune the queues at a clock reading and set the rate gauges to their lengths. -/
def pruneAndRecalculateRates (now : Instant) (metrics : FrontfillMetrics) : FrontfillMetrics :=
  let rates := pruneOldEntries (now - sixtySeconds) metrics.rateState
  { metrics with
    rateState := rates
    logsPerMinute := rates.total.length
    logsPerMinuteByType := rates.byType.entries.foldl
      (fun gauges entry => gauges.insert entry.1 entry.2.length) metrics.logsPerMinuteByType }

namespace FrontfillMetrics

variable (metrics : FrontfillMetrics)

/-- The part of `observe_log` before the lock of the rates. -/
def observeLogCounters (blockNumber unixSeconds : UInt64) : FrontfillMetrics :=
  { metrics with
    logsTotal := metrics.logsTotal + 1
    currentBlockNumber := blockNumber
    lastLogUnixSeconds := unixSeconds }

/-- The part of `observe_log` under the lock: the log was seen at `seen`, it is now `now`. -/
def observeLogRates (seen now : Instant) : FrontfillMetrics :=
  pruneAndRecalculateRates now
    { metrics with rateState.total := metrics.rateState.total ++ [seen] }

def observeDecodedTypeCounters (eventType : String) : FrontfillMetrics :=
  let count := (metrics.logsByTypeTotal.lookup eventType).getD 0
  { metrics with logsByTypeTotal := metrics.logsByTypeTotal.insert eventType (count + 1) }

def observeDecodedTypeRates (eventType : String) (seen now : Instant) : FrontfillMetrics :=
  let queue := (metrics.rateState.byType.lookup eventType).getD [] ++ [seen]
  pruneAndRecalculateRates now
    { metrics with rateState.byType := metrics.rateState.byType.insert eventType queue }

end FrontfillMetrics

end PolymarketIndexer
