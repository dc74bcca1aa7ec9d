import NodeLending.Digest.Sha256
import NodeLending.Text.Hex
import NodeLending.Text.Utf8

/-!
# Namespaces of a pool

Everything that is served for a repository lies below one path segment, the namespace. It is made
of the first four bytes of the digest of the repository's location, so it has a fixed length and
holds safe characters only. Below the namespace there are five endpoints.

## Main definitions

* `Namespace.ofRepository`: the namespace of a repository.
* `Endpoint`: the endpoints, and `Namespace.path` their paths.
-/

namespace NodeLending

/-- The path segment that everything served for a repository lies below. -/
structure Namespace where
  /-- The segment itself. -/
  text : String
  deriving DecidableEq, Repr

namespace Namespace

/-- What every namespace starts with. -/
def lead : String := "nodesharing-"

/-- How many bytes of the digest are kept. -/
def digestBytes : Nat := 4

/-- The namespace of the repository at a location. -/
def ofRepository (location : String) : Namespace :=
  ⟨lead ++ Text.hex ((Digest.sha256 (Text.utf8 location)).take digestBytes)⟩

instance : ToString Namespace := ⟨Namespace.text⟩

end Namespace

/-- What a party can ask of a pool. -/
inductive Endpoint where
  /-- What the pool offers. -/
  | discover
  /-- The demand of a party is reported. -/
  | reportWorkload
  /-- A node is given back. -/
  | returnNode
  /-- Whether a node is in the pool. -/
  | nodeStatus
  /-- Whether a reservation is live. -/
  | runStatus
  deriving DecidableEq, Repr

namespace Endpoint

/-- All endpoints. -/
def all : List Endpoint := [discover, reportWorkload, returnNode, nodeStatus, runStatus]

/-- The last segment of the path of an endpoint. -/
def segment : Endpoint → String
  | discover => "discover"
  | reportWorkload => "reportWorkload"
  | returnNode => "returnNode"
  | nodeStatus => "nodeStatus"
  | runStatus => "runStatus"

/-- The endpoint of a segment. -/
def ofSegment? (s : String) : Option Endpoint := all.find? (fun e => e.segment == s)

end Endpoint

/-- The path of an endpoint. -/
def Namespace.path (ns : Namespace) (e : Endpoint) : String :=
  "/" ++ ns.text ++ "/" ++ e.segment

end NodeLending
