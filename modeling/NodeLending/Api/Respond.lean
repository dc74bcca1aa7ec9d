import NodeLending.Api.Handshake
import NodeLending.Api.Health

/-!
# Responses of the orchestrator

A party discovers the pool, reports its demand, gives nodes back, and asks for nodes and
reservations. A report is all that leaves a trace, and it leaves it in the ledger. A node that is
given back is only looked up: its reservation ends in the queue and nowhere else.

## Main definitions

* `Api.discover`, `Api.report`, `Api.giveBack`, `Api.nodeStatus`, `Api.runStatus`: the endpoints.
* `Api.respond`: the response to a request, and the ledger after it.
-/

namespace NodeLending.Api

/-- What the pool offers. -/
def discover (o : Orchestrator) (a : Accepted DiscoverRequest) : DiscoverResponse where
  version := protocolVersion
  orchestratorUrl := a.snapshot.url
  labels := Inventory.servedLabels o.pool.view.inventory
  diagnosis := o.pool.diagnosis

/-- Take a report into the ledger. All its items have to belong to its sender. -/
def report (o : Orchestrator) (now : Moment) (a : Accepted ReportRequest) :
    Except Problem (ReportResponse × Ledger) :=
  let sender := a.party.name
  match a.message.items.find? fun i => i.owner ≠ sender with
  | some i => .error ⟨.badRequest, "owner_mismatch",
      s!"item {i.id} is owned by '{i.owner.text}', not by sender '{sender.text}'"⟩
  | none =>
    .ok (⟨.ofNat a.message.items.length⟩, o.ledger.record sender a.message.items now)

/-- A node is given back. -/
def giveBack (o : Orchestrator) (a : Accepted ReturnRequest) : Except Problem Unit :=
  if o.pool.view.hasNode a.message.node then .ok ()
  else .error ⟨.notFound, "node_not_found", s!"node '{a.message.node}' is not in the pool"⟩

/-- Whether a node is in the pool. -/
def nodeStatus (o : Orchestrator) (a : Accepted NodeStatusRequest) : NodeStatusResponse :=
  ⟨.ofBool (o.pool.view.hasNode a.message.node)⟩

/-- Whether a reservation waits or runs. -/
def runStatus (o : Orchestrator) (a : Accepted RunStatusRequest) : RunStatusResponse :=
  ⟨.ofBool (o.queue.isLive a.message.run)⟩

/-- The response to a request to an endpoint below a path segment, and the ledger after it. -/
def respondAt (o : Orchestrator) (now : Moment) (segment : String) (r : Request) :
    Endpoint → Except Problem (Response × Ledger)
  | .discover => do
    let a ← accept DiscoverRequest o segment r
    return (.json 200 (Json.encode (discover o a)), o.ledger)
  | .reportWorkload => do
    let a ← accept ReportRequest o segment r
    let (response, ledger) ← report o now a
    return (.json 200 (Json.encode response), ledger)
  | .returnNode => do
    let a ← accept ReturnRequest o segment r
    giveBack o a
    return (.bare 200, o.ledger)
  | .nodeStatus => do
    let a ← accept NodeStatusRequest o segment r
    return (.json 200 (Json.encode (nodeStatus o a)), o.ledger)
  | .runStatus => do
    let a ← accept RunStatusRequest o segment r
    return (.json 200 (Json.encode (runStatus o a)), o.ledger)

/-- The response to a request, and the ledger after it. -/
def respond (o : Orchestrator) (now : Moment) (r : Request) : Response × Ledger :=
  match Route.of? r.target with
  | none => (.bare 404, o.ledger)
  | some (.probe p) =>
    if r.method = "GET" then (probe o now p, o.ledger)
    else if r.method = "HEAD" then ((probe o now p).headOnly, o.ledger)
    else (.notAllowed "GET,HEAD", o.ledger)
  | some (.endpoint segment e) =>
    if r.method = "POST" then
      match respondAt o now segment r e with
      | .ok answer => answer
      | .error p => (.problem p, o.ledger)
    else (.notAllowed "POST", o.ledger)

end NodeLending.Api
