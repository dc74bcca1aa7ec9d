import NodeLending.Client.Wire
import NodeLending.Url.Parse

/-!
# Sessions of a party

A party first discovers the pool. Only the discovery opens a session, and only a session can report
demand, give nodes back and ask for the status of nodes and reservations.

A response counts by its status. A conflict means that the pool refuses the fingerprint. When a
node is given back, one answer besides success is as good: that the pool does not have the node.

## Main definitions

* `Client`, `Client.of?`, `Client.discover`.
* `Session`, with `Session.report`, `Session.returnNode`, `Session.nodeStatus`,
  `Session.runStatus`.
* `Disposal`: a node that is given back.
-/

namespace NodeLending

/-- A party that knows how to reach the pool. -/
structure Client where
  /-- The address of the pool; its path ends with a slash. -/
  base : Url
  /-- The location of the repository. -/
  repository : String
  /-- The name of the party. -/
  party : PartyName
  deriving DecidableEq, Repr

namespace Client

open Json

/-- The address of a pool from its text. -/
def base? [Url.Idna] (url : String) : Except Error Url :=
  match Url.parse? url with
  | .error e => .error (.invalidUrl url e.message)
  | .ok u => if u.isBase then .ok u.slashed else .error (.invalidUrl url "not a base URL")

/-- The party that reaches the pool under an address. -/
def of? [Url.Idna] (url repository : String) (party : PartyName) : Except Error Client :=
  (base? url).map fun base => ⟨base, repository, party⟩

/-- The namespace that the party asks in. -/
def ns (c : Client) : Namespace := .ofRepository c.repository

/-- The fingerprint of the party. -/
def fingerprint (c : Client) : Fingerprint := .ofParty c.repository c.party

/-- A request to an endpoint. -/
def request {α : Type} [Codec α] (c : Client) (e : Endpoint) (body : α) : Request :=
  ⟨(c.base.resolve [c.ns.text, e.segment]).path.text, e, encode body⟩

/-- The body of a response that reports success. -/
def check (r : Response) : Except Error String :=
  if r.isSuccess then .ok r.body
  else if r.status = 409 then
    .error (.handshakeRejected (((Value.read? r.body) >>= Value.field? "detail" >>=
      Value.string?).getD r.body))
  else .error (.unexpectedStatus r.status r.body)

/-- Read a response. -/
def receive (α : Type) [Codec α] (r : Response) : Except Error α := do
  match Json.read (α := α) (← check r) with
  | .ok a => .ok a
  | .error _ => .error .undecodable

/-- Send a request and read the response. -/
def call {α : Type} [Codec α] (c : Client) (e : Endpoint) (body : α)
    {β : Type} (read : Response → Except Error β) : Exchange (Except Error β) := do
  match ← send (c.request e body) with
  | none => return .error .transport
  | some r => return read r

end Client

/-- A party that the pool has been discovered by. -/
structure Session where
  /-- The party. -/
  client : Client
  /-- What the pool offered. -/
  discovery : DiscoverResponse
  deriving DecidableEq, Repr

namespace Client

/-- The session that a discovery opens. -/
def openSession (c : Client) (d : DiscoverResponse) : Except Error Session :=
  if d.version = protocolVersion then .ok ⟨c, d⟩
  else .error (.handshakeRejected
    s!"orchestrator speaks protocol {d.version}, this party speaks {protocolVersion}")

/-- Discover the pool. -/
def discover (c : Client) : Exchange (Except Error Session) :=
  c.call .discover (DiscoverRequest.mk c.fingerprint)
    fun r => Client.receive DiscoverResponse r >>= c.openSession

end Client

/-- How it went to give a node back. -/
inductive ReturnOutcome where
  /-- The pool took note of it. -/
  | returned
  /-- The pool does not have the node, so nothing is left to give back. -/
  | alreadyResolved
  deriving DecidableEq, Repr

/-- The code of the problem that the pool does not have a node. -/
def nodeNotFound : String := "node_not_found"

namespace Session

open Client

/-- The labels that the pool offered. -/
def labels (s : Session) : List String := s.discovery.labels

/-- Report the demand of the party, which replaces any earlier report. -/
def report (s : Session) (items : List WorkloadItem) : Exchange (Except Error UInt64) :=
  s.client.call .reportWorkload (ReportRequest.mk s.client.fingerprint items)
    fun r => (receive ReportResponse r).map ReportResponse.accepted

/-- The code of the problem that a body describes. -/
def problemCode? (body : String) : Option String :=
  Json.Value.read? body >>= Json.Value.field? "code" >>= Json.Value.string?

/-- What a response says of a node that was given back. -/
def returnOutcome (r : Response) : Except Error ReturnOutcome :=
  if r.status = 404 then
    if problemCode? r.body = some nodeNotFound then .ok .alreadyResolved
    else .error (.unexpectedStatus r.status r.body)
  else (check r).map fun _ => .returned

/-- Give a node back. -/
def returnNode (s : Session) (node : NodeName) (status : ReturnStatus) :
    Exchange (Except Error ReturnOutcome) :=
  s.client.call .returnNode (ReturnRequest.mk s.client.fingerprint node.text status) returnOutcome

/-- Whether the pool has a node. -/
def nodeStatus (s : Session) (node : NodeName) : Exchange (Except Error Presence) :=
  s.client.call .nodeStatus (NodeStatusRequest.mk s.client.fingerprint node.text)
    fun r => (receive NodeStatusResponse r).map NodeStatusResponse.state

/-- Whether a reservation is live. -/
def runStatus (s : Session) (run : ReservationId) : Exchange (Except Error Presence) :=
  s.client.call .runStatus (RunStatusRequest.mk s.client.fingerprint run)
    fun r => (receive RunStatusResponse r).map RunStatusResponse.state

end Session

/-! ### Nodes that are given back -/

/-- What is left of a borrowed node. -/
inductive DisposalState where
  /-- Nothing. -/
  | purged
  deriving DecidableEq, Repr

/-- A node that a party is done with. -/
structure Disposal where
  /-- The session in which it was borrowed. -/
  session : Session
  /-- The node. -/
  node : NodeName
  /-- How the work on it ended. -/
  status : ReturnStatus
  deriving DecidableEq, Repr

namespace Disposal

/-- Give the node back. It may be tried again after a failure. -/
def dispose (d : Disposal) : Client.Exchange (Except Client.Error DisposalState) := do
  let outcome ← d.session.returnNode d.node d.status
  return outcome.map fun _ => .purged

/-- The words for what is being done. -/
def text (d : Disposal) : String := s!"Returning node {d.node.text} to orchestrator"

end Disposal

end NodeLending
