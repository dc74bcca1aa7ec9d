import NodeLending.Namespace
import NodeLending.Text.Split
import NodeLending.Text.Utf8
import NodeLending.Url.Basic

/-!
# Routes

A request is for one of the probes, or for an endpoint below a namespace. Paths are compared as
they were sent; only the namespace may be percent-encoded.

## Main definitions

* `Api.Probe`, `Api.Route`, and `Api.Route.of?`.
* `Api.Route.namespace?`: the namespace of a path segment.
-/

namespace NodeLending.Api

/-- The questions about the state of the service. -/
inductive Probe where
  /-- Whether the service works. -/
  | health
  /-- Whether the pool works. -/
  | readiness
  /-- Whether the service is there. -/
  | liveness
  deriving DecidableEq, Repr

/-- The path segment of a probe. -/
def Probe.segment : Probe → String
  | health => "healthz"
  | readiness => "readyz"
  | liveness => "livez"

/-- The probe of a path segment. -/
def Probe.ofSegment? (s : String) : Option Probe :=
  [health, readiness, liveness].find? (fun p => p.segment == s)

/-- What a request is for. -/
inductive Route where
  /-- A probe. -/
  | probe (p : Probe)
  /-- An endpoint below a path segment. -/
  | endpoint (segment : String) (e : Endpoint)
  deriving DecidableEq, Repr

namespace Route

/-- Whether a character ends the path of a target. -/
def endsPath (c : Char) : Bool := c == '?' || c == '#'

/-- The path of a target. -/
def path (target : String) : String := String.ofList (Text.cutAt endsPath target.toList).1

/-- What a request for a target is for. The segment of a namespace may be empty, as in `//discover`.
The router hands such a request on, and it is answered that the empty namespace is not served here;
a path that is for nothing has an answer without any text. -/
def of? (target : String) : Option Route :=
  match Text.splitOn '/' (path target) with
  | ["", s] => (Probe.ofSegment? s).map probe
  | ["", ns, s] => (Endpoint.ofSegment? s).map (endpoint ns)
  | _ => none

/-- The namespace that a path segment stands for. -/
def namespace? (segment : String) : Option String :=
  Text.ofUtf8? (Url.percentDecode segment.toList)

end Route

end NodeLending.Api
