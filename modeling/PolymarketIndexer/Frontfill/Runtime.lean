import PolymarketIndexer.Metrics.Server

/-! # The run and its metrics tasks

Two tasks live beside a run with metrics: one refreshes the rates on every tick of a timer,
under the lock of the rates, the other serves HTTP with a library's server, of which only this
is known: what it is handed, and that it takes no step once it has ended. A task is told to end
when its one-shot channel resolves. An exit of the run either shuts the runtime down, first the
updater and then the server, or drops it, and a dropped sender resolves its channel as well.
-/

namespace PolymarketIndexer

/-- A one-shot channel as its receiver finds it. -/
inductive Oneshot where
  | waiting
  | sent
  | dropped
  deriving DecidableEq, Repr

def Oneshot.resolved : Oneshot → Bool
  | .waiting => false
  | .sent | .dropped => true

/-- The task of `spawn_rate_updater`; it has the lock while it is publishing. -/
inductive Updater where
  | selecting
  | locking
  | publishing
  | stopped
  deriving DecidableEq, Repr

/-- The server of the library, with states `S` and events `E`: it answers with what it is handed,
and its steps may depend on whether its shutdown signal has come. -/
structure HttpServer (S E : Type) where
  serve : S
  step : (UInt64 → String → Response) → Bool → S → E → Option S
  ended : S → Bool
  silent : ∀ app told server event, ended server = true → step app told server event = none

/-- Who has the two handles: the run, `shutdown` while it waits for the one or the other
task, or nobody any more. -/
inductive Handles where
  | held
  | joiningUpdater
  | joiningServer
  | joined
  | dropped
  deriving DecidableEq, Repr

structure MetricsRuntime (S : Type) where
  handles : Handles
  rateShutdown : Oneshot
  updater : Updater
  serverShutdown : Oneshot
  server : S

inductive UpdaterEvent where
  | tick
  | lock
  | publish (now : Instant)
  | stop

inductive JoinEvent where
  | updater
  | server

section Tasks

variable {S E : Type} (http : HttpServer S E)

/-- Both tasks are spawned. -/
def MetricsRuntime.started : MetricsRuntime S where
  handles := .held
  rateShutdown := .waiting
  updater := .selecting
  serverShutdown := .waiting
  server := http.serve

/-- A step of the updater; publishing is what it does under the lock. -/
def updaterStep (runtime : MetricsRuntime S) : UpdaterEvent → Option (MetricsRuntime S)
  | .tick =>
      match runtime.updater with
      | .selecting => some { runtime with updater := .locking }
      | _ => none
  | .lock =>
      match runtime.updater with
      | .locking => some { runtime with updater := .publishing }
      | _ => none
  | .publish _ =>
      match runtime.updater with
      | .publishing => some { runtime with updater := .selecting }
      | _ => none
  | .stop =>
      match runtime.updater with
      | .selecting =>
          if runtime.rateShutdown.resolved then some { runtime with updater := .stopped } else none
      | _ => none

/-- A step of the server, which is handed the three routes. -/
def serverStep (exporter : Exporter) (metrics : FrontfillMetrics) (runtime : MetricsRuntime S)
    (event : E) : Option (MetricsRuntime S) :=
  (http.step (respond exporter metrics) runtime.serverShutdown.resolved runtime.server event).map
    (fun server => { runtime with server := server })

/-- `shutdown` goes on when the task it waits for has ended. -/
def joinStep (runtime : MetricsRuntime S) : JoinEvent → Option (MetricsRuntime S)
  | .updater =>
      match runtime.handles, runtime.updater with
      | .joiningUpdater, .stopped =>
          some { runtime with handles := .joiningServer, serverShutdown := .sent }
      | _, _ => none
  | .server =>
      match runtime.handles with
      | .joiningServer =>
          if http.ended runtime.server then some { runtime with handles := .joined } else none
      | _ => none

end Tasks

namespace Frontfill

structure Hosted (σ ω S : Type) where
  run : State σ ω
  runtime : MetricsRuntime S

inductive HostedInput (ω E : Type) where
  | run (input : Input ω)
  | updater (event : UpdaterEvent)
  | server (event : E)
  | join (event : JoinEvent)

/-- The rates are recorded under their lock, and the wait for the runtime is over when it has
been joined. -/
def mayRun {ω S : Type} (runtime : MetricsRuntime S) : Input ω → Bool
  | .record _ _ => runtime.updater ≠ .publishing
  | .metricsStopped => runtime.handles = .joined
  | _ => true

/-- What the run has just done with its handles: `shutdown` takes them when it exits, and they
are dropped when it returns at once. -/
def handOver {S : Type} (runtime : MetricsRuntime S) (phase : Phase) : MetricsRuntime S :=
  match runtime.handles, phase with
  | .held, .exiting _ => { runtime with handles := .joiningUpdater, rateShutdown := .sent }
  | .held, .returned _ =>
      { runtime with handles := .dropped, rateShutdown := .dropped, serverShutdown := .dropped }
  | _, _ => runtime

/-- The gauges that the updater sets. -/
def publishRates : UpdaterEvent → FrontfillMetrics → FrontfillMetrics
  | .publish now, metrics => pruneAndRecalculateRates now metrics
  | _, metrics => metrics

section Machine

variable {σ ω S E : Type} [EventSink σ ω] (config : FrontfillConfig) (alloy : Alloy)
  (exporter : Exporter) (http : HttpServer S E)

def hostedStep (h : Hosted σ ω S) : HostedInput ω E → Option (Hosted σ ω S)
  | .run input =>
      if mayRun h.runtime input then
        (step config alloy h.run input).map (fun run =>
          { run := run, runtime := handOver h.runtime run.phase })
      else none
  | .updater event =>
      (updaterStep h.runtime event).map (fun runtime =>
        { run := h.run.measure (publishRates event), runtime := runtime })
  | .server event =>
      match h.run.metrics with
      | none => none
      | some metrics =>
          (serverStep http exporter metrics h.runtime event).map (fun runtime =>
            { h with runtime := runtime })
  | .join event => (joinStep http h.runtime event).map (fun runtime => { h with runtime := runtime })

end Machine

end Frontfill

end PolymarketIndexer
