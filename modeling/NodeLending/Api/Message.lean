import NodeLending.Api.Problem
import NodeLending.Text.Utf8

/-!
# Requests and responses

## Main definitions

* `Api.Body`, `Api.Request`: requests, with bodies of any bytes.
* `Api.Response`, and the ways in which responses are made.
-/

namespace NodeLending.Api

/-- The body of a request. Its bytes need not be those of a text. -/
structure Body where
  /-- The bytes. -/
  bytes : List UInt8
  deriving DecidableEq, Repr

namespace Body

/-- The body with a text. -/
def ofText (s : String) : Body := ⟨Text.utf8 s⟩

instance : Coe String Body := ⟨ofText⟩

/-- How many bytes are read of a body. -/
def limit : Nat := 2 * 1024 * 1024

/-- Whether a body is read at all. -/
def fits (b : Body) : Bool := b.bytes.length ≤ limit

end Body

/-- A request. -/
structure Request where
  /-- The method. -/
  method : String
  /-- The path with the query behind it, as it was sent. -/
  target : String
  /-- The media type of the body. -/
  contentType : Option String
  /-- The body. -/
  body : Body
  deriving DecidableEq, Repr

/-- A response. -/
structure Response where
  /-- The status. -/
  status : Nat
  /-- The media type of the body. -/
  contentType : Option String := none
  /-- The methods that are allowed. -/
  allow : Option String := none
  /-- The body. -/
  body : Option Json.Value := none
  deriving Repr

namespace Response

/-- The media type of a body that is no problem. -/
def jsonType : String := "application/json"

/-- A response with a body. -/
def json (status : Nat) (body : Json.Value) : Response :=
  { status, contentType := some jsonType, body := some body }

/-- A response without a body. -/
def bare (status : Nat) : Response := { status }

/-- The refusal of a request. -/
def problem (p : Problem) : Response :=
  { status := p.kind.status, contentType := some Problem.contentType, body := some p.toJson }

/-- The refusal of a method. -/
def notAllowed (allowed : String) : Response := { status := 405, allow := some allowed }

/-- The response without its body. -/
def headOnly (r : Response) : Response := { r with body := none }

end Response

end NodeLending.Api
