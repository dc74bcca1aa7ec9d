import NodeLending.Api.Message
import NodeLending.Api.MediaType
import NodeLending.Api.Route
import NodeLending.Json.Bytes
import NodeLending.Orchestrator

/-!
# Handshakes

A request to an endpoint is looked at only when it comes from a party of the repository that is
served. The checks follow one another: the namespace has to be that of the repository, the pool has
to follow a revision, the body has to be readable, its fingerprint has to name the same version and
the same repository, and its party has to be declared. A body is JSON by its media type, and at most
two megabytes of it are read.

## Main definitions

* `Api.Accepted`: a request that has passed all checks, and `Api.accept`, the checks.
* `Api.Body.decode`, `Api.decodeBody`: the value of a body, if it is neither too long nor no JSON.
-/

namespace NodeLending.Api

/-- A message that a fingerprint comes with. -/
class Fingerprinted (α : Type) where
  /-- The fingerprint. -/
  fingerprint : α → Fingerprint

instance : Fingerprinted DiscoverRequest := ⟨DiscoverRequest.fingerprint⟩

instance : Fingerprinted ReportRequest := ⟨ReportRequest.fingerprint⟩

instance : Fingerprinted ReturnRequest := ⟨ReturnRequest.fingerprint⟩

instance : Fingerprinted NodeStatusRequest := ⟨NodeStatusRequest.fingerprint⟩

instance : Fingerprinted RunStatusRequest := ⟨RunStatusRequest.fingerprint⟩

/-- A request that has passed all checks. -/
structure Accepted (α : Type) where
  /-- The party that has sent it. -/
  party : Party
  /-- The revision that the pool follows. -/
  snapshot : Snapshot
  /-- The message. -/
  message : α
  deriving Repr

/-! ### Bodies -/

/-- The wording of a body that cannot be read. -/
def decodeDetail : Json.DecodeError → String
  | .malformed => "Failed to parse the request body as JSON"
  | .mismatch path m =>
    "Failed to deserialize the JSON body into the target type: " ++
      (if path.isEmpty then "" else Decode.Path.text path ++ ": ") ++ m.message

/-- The wording of a body that is no JSON. -/
def mediaTypeDetail : String := "Expected request with " ++ Decode.ticked "Content-Type: application/json"

/-- The wording of a body that is too long to be read. -/
def lengthDetail : String := "Failed to buffer the request body: length limit exceeded"

/-- The value of a body of JSON. -/
def Body.decode (α : Type) [Json.Codec α] (b : Body) : Except String α :=
  if b.fits then (Json.readBytes b.bytes).mapError decodeDetail else .error lengthDetail

/-- The value of the body of a request. -/
def decodeBody (α : Type) [Json.Codec α] (r : Request) : Except String α :=
  if r.contentType.any MediaType.isJsonText then r.body.decode α else .error mediaTypeDetail

/-! ### The checks -/

/-- The problem of a pool that cannot serve parties. -/
def inactive (detail : String) : Problem := ⟨.unavailable, "pool_inactive", detail⟩

/-- The problem of a namespace that is not served. -/
def unknownNamespace (detail : String) : Problem := ⟨.notFound, "unknown_namespace", detail⟩

/-- The namespace of a request. -/
def readNamespace (segment : String) : Except Problem String :=
  match Route.namespace? segment with
  | some ns => .ok ns
  | none => .error (unknownNamespace
      ("Invalid URL: Invalid UTF-8 in " ++ Decode.ticked "namespace"))

/-- The repository that is served under a namespace. -/
def repositoryOf (o : Orchestrator) (ns : String) : Except Problem String :=
  match o.repository with
  | none => .error (inactive "orchestrator has no config repository")
  | some repository =>
    if ns = (Namespace.ofRepository repository).text then .ok repository
    else .error (unknownNamespace s!"namespace '{ns}' is not served here")

/-- The revision that the pool follows. -/
def revision (o : Orchestrator) : Except Problem Snapshot :=
  match o.pool.view.snapshot with
  | some s => .ok s
  | none => .error (inactive "pool has not loaded a configuration yet")

/-- The declared party that a fingerprint names. -/
def senderOf (s : Snapshot) (f : Fingerprint) : Except Problem Party :=
  match s.parties.find? f.party with
  | some p => .ok p
  | none => .error ⟨.notFound, "unknown_party",
      s!"party '{f.party.text}' is not declared in the config repository"⟩

/-- Check a request to an endpoint below a path segment. -/
def accept (α : Type) [Json.Codec α] [Fingerprinted α] (o : Orchestrator) (segment : String)
    (r : Request) : Except Problem (Accepted α) := do
  let ns ← readNamespace segment
  let repository ← repositoryOf o ns
  let snapshot ← revision o
  let message ← (decodeBody α r).mapError (Problem.mk .badRequest "invalid_payload")
  let fingerprint := Fingerprinted.fingerprint message
  (fingerprint.verify repository protocolVersion).mapError fun e =>
    ⟨.conflict, "handshake_rejected", e.message⟩
  let party ← senderOf snapshot fingerprint
  return ⟨party, snapshot, message⟩

end NodeLending.Api
