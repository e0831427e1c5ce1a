import PolymarketIndexer.Frontfill.Health
import PolymarketIndexer.Library.Avro

/-! # The metrics endpoint

What the HTTP server answers to a request. The text of the metrics and the check of a header
value come from libraries; a path without a route is not found.
-/

namespace PolymarketIndexer

structure Response where
  status : Nat
  headers : List (String × String)
  body : List UInt8
  deriving DecidableEq, Repr

structure Exporter where
  encode : FrontfillMetrics → Except String (List UInt8)
  formatType : String
  headerValue : String → Option String

def renderMetrics (exporter : Exporter) (metrics : FrontfillMetrics) :
    Except String (String × List UInt8) := do
  let output ← exporter.encode metrics
  return (exporter.formatType, output)

def metricsHandler (exporter : Exporter) (metrics : FrontfillMetrics) : Response :=
  match renderMetrics exporter metrics with
  | .ok (contentType, body) =>
      { status := 200
        headers := ((exporter.headerValue contentType).map ("content-type", ·)).toList
        body := body }
  | .error _ => { status := 500, headers := [], body := Avro.textBytes "metrics encode error" }

def textResponse (answer : Nat × String) : Response where
  status := answer.1
  headers := []
  body := Avro.textBytes answer.2

/-- The three routes of the server. -/
def respond (exporter : Exporter) (metrics : FrontfillMetrics) (now : UInt64) (path : String) :
    Response :=
  if path = "/metrics" then metricsHandler exporter metrics
  else if path = "/health" then textResponse (healthHandler metrics.health now)
  else if path = "/ready" then textResponse (readyHandler metrics.health now)
  else { status := 404, headers := [], body := [] }

end PolymarketIndexer
