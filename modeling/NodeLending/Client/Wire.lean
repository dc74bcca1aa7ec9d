import NodeLending.Dialogue
import NodeLending.Message
import NodeLending.Namespace

/-!
# What a party sends and gets

A party talks to the pool in requests and responses. Whether a request arrives is not up to the
party, and neither is the demand that waits in its queue when a report is due; both are asked for
outside.

## Main definitions

* `Client.Request`, `Client.Response`.
* `Client.Question`, `Client.Exchange`: the activities of a party.
-/

namespace NodeLending.Client

/-- A request to an endpoint of the pool. -/
structure Request where
  /-- The path under which the endpoint is reached. -/
  path : String
  /-- The endpoint. -/
  endpoint : Endpoint
  /-- The body. -/
  body : Json.Value
  deriving Repr

/-- The final response to a request. -/
structure Response where
  /-- The status. -/
  status : Nat
  /-- The body. -/
  body : String
  deriving DecidableEq, Repr

/-- Whether the response reports success. -/
def Response.isSuccess (r : Response) : Bool := 200 ≤ r.status && r.status < 300

/-- What a party asks outside. -/
inductive Question where
  /-- Send a request. -/
  | send (r : Request)
  /-- Look at the demand that waits in the queue. -/
  | demand
  deriving Repr

/-- The answers. A request without a response has failed on its way. -/
abbrev Answer : Question → Type
  | .send _ => Option Response
  | .demand => List WorkloadItem

/-- An activity of a party. -/
abbrev Exchange := Dialogue Question Answer

/-- Send a request. -/
def send (r : Request) : Exchange (Option Response) := .ask (.send r) .done

/-- Look at the demand that waits in the queue. -/
def demand : Exchange (List WorkloadItem) := .ask .demand .done

/-- What can go wrong between a party and the pool. -/
inductive Error where
  /-- The address of the pool is no URL. -/
  | invalidUrl (url reason : String)
  /-- The request failed on its way. -/
  | transport
  /-- The pool refused the fingerprint. -/
  | handshakeRejected (reason : String)
  /-- The response is not one that is expected. -/
  | unexpectedStatus (status : Nat) (body : String)
  /-- The response cannot be read. -/
  | undecodable
  deriving DecidableEq, Repr

/-- The wording of an error; those of the transport have none of their own. -/
def Error.message? : Error → Option String
  | .invalidUrl url reason => some s!"invalid orchestrator URL '{url}': {reason}"
  | .transport => none
  | .handshakeRejected reason => some s!"handshake rejected: {reason}"
  | .unexpectedStatus status body => some s!"unexpected response {status}: {body}"
  | .undecodable => none

/-- Whether the same request may succeed later. -/
def Error.isTransient : Error → Bool
  | .transport => true
  | .unexpectedStatus status _ => status ≥ 500
  | _ => false

end NodeLending.Client
