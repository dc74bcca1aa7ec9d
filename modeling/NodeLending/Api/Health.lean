import NodeLending.Api.Route
import NodeLending.Api.Message
import NodeLending.Orchestrator

/-!
# Probes

The service answers as soon as it is there. The pool is ready once it follows a revision, and stays
so when a later pass fails; it is then degraded.

## Main definitions

* `Api.Health`, and `Api.probe`, the answers to the probes.
-/

namespace NodeLending.Api

/-- How something works. -/
inductive Health where
  /-- It works. -/
  | ok
  /-- It works with what it had. -/
  | degraded
  /-- It does not work yet. -/
  | unavailable
  deriving DecidableEq, Repr

/-- The word for how something works. -/
def Health.text : Health → String
  | ok => "ok"
  | degraded => "degraded"
  | unavailable => "unavailable"

/-- How a pool works. -/
def Health.ofPool (p : Pool) : Health :=
  if !p.activated then unavailable
  else if p.error.isSome then degraded
  else ok

/-- What the service is called. -/
def serviceName : String := "orchestrator"

/-- The version of the service. -/
def serviceVersion : String := "0.1.0"

/-- What is told of the service. -/
def healthBody (h : Health) (now : Moment) (pool : Option Json.Value) : Json.Value :=
  .object ([
    ("status", .string h.text),
    ("service", .string serviceName),
    ("version", .string serviceVersion),
    ("timestamp", .string now.text)] ++ Json.optional "pool" pool)

/-- What is told of the pool. -/
def poolBody (o : Orchestrator) : Json.Value :=
  .object ([("status", .string (Health.ofPool o.pool).text)] ++
    Json.optional "namespace" (o.served.map fun ns => .string ns.text) ++
    Json.optional "diagnosis" (o.pool.diagnosis.map .string) ++
    [("nodes", .nat o.pool.view.inventory.size),
     ("pending_reservations", .nat o.queue.pending.length),
     ("demand", Json.encode o.ledger.summary)])

/-- The answer to a probe. -/
def probe (o : Orchestrator) (now : Moment) : Probe → Response
  | .health => .json 200 (healthBody .ok now none)
  | .readiness =>
    .json (if o.pool.activated then 200 else 503)
      (healthBody (.ofPool o.pool) now (some (poolBody o)))
  | .liveness => .bare 200

end NodeLending.Api
