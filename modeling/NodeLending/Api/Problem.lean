import NodeLending.Json.Value

/-!
# Problem details

A request that is refused is answered with a problem: a status, a code that tells the reason, and
a sentence for people. Only a pool that is not ready yet is worth asking again.

## Main definitions

* `Api.Problem`, its makers, and `Api.Problem.toJson`.
-/

namespace NodeLending.Api

/-- The kinds of problems. -/
inductive ProblemKind where
  /-- The request is wrong. -/
  | badRequest
  /-- What was asked for is not there. -/
  | notFound
  /-- The request does not fit the state of the pool. -/
  | conflict
  /-- The pool cannot answer yet. -/
  | unavailable
  deriving DecidableEq, Repr

namespace ProblemKind

/-- The status of an answer. -/
def status : ProblemKind → Nat
  | badRequest => 400
  | notFound => 404
  | conflict => 409
  | unavailable => 503

/-- The name of the status. -/
def title : ProblemKind → String
  | badRequest => "Bad Request"
  | notFound => "Not Found"
  | conflict => "Conflict"
  | unavailable => "Service Unavailable"

/-- Whether the same request may succeed later. -/
def isRetryable (k : ProblemKind) : Bool := k == unavailable

end ProblemKind

/-- Why a request is refused. -/
structure Problem where
  /-- The kind of the problem. -/
  kind : ProblemKind
  /-- The code that tells the reason. -/
  code : String
  /-- The reason in words. -/
  detail : String
  deriving DecidableEq, Repr

namespace Problem

/-- The media type of a problem. -/
def contentType : String := "application/problem+json"

/-- The body of the answer. -/
def toJson (p : Problem) : Json.Value := .object [
  ("type", .string ("https://nodeshare.dev/problems/" ++ p.code)),
  ("title", .string p.kind.title),
  ("status", .nat p.kind.status),
  ("detail", .string p.detail),
  ("code", .string p.code),
  ("retryable", .bool p.kind.isRetryable)]

end Problem

end NodeLending.Api
