/-!
# Removal of managed nodes

A node that is no longer declared may still be in use. It then waits, out of service, until it is
found idle; an idle one is removed at once. A waiting node that is declared again is back in
service.

## Main definitions

* `Removal`: whether a node is in service or waits to be removed.
* `Removal.onDeclared`, `Removal.onUndeclared`: what a look at the repository makes of it.
* `Removal.Observation`, `Removal.observe`, `Removal.history`: repeated looks.
-/

namespace NodeLending

/-- Whether a managed node is in service. -/
inductive Removal where
  /-- The node is declared and takes new work. -/
  | active
  /-- The node is not declared any more and is removed as soon as it is idle. -/
  | pending
  deriving DecidableEq, Repr, Inhabited

namespace Removal

/-- The word for a removal state. -/
def text : Removal → String
  | active => "active"
  | pending => "pending_removal"

/-- Whether the node takes new work. -/
def isActive : Removal → Bool
  | active => true
  | pending => false

/-- The node is not declared; without a state it is removed now. -/
def onUndeclared (idle : Bool) (_ : Removal) : Option Removal :=
  if idle then none else some pending

/-- The node is declared. -/
def onDeclared (_ : Removal) : Removal := active

/-- What a look at the repository and the node finds. -/
inductive Observation where
  /-- The node is declared. -/
  | declared
  /-- The node is not declared. -/
  | undeclared (idle : Bool)
  deriving DecidableEq, Repr

/-- The state after a look. -/
def observe (r : Removal) : Observation → Option Removal
  | .declared => some r.onDeclared
  | .undeclared idle => r.onUndeclared idle

/-- The states after each of several looks; the looks end when the node has been removed. -/
def history (r : Removal) : List Observation → List (Option Removal)
  | [] => []
  | o :: rest =>
    match r.observe o with
    | some r' => some r' :: r'.history rest
    | none => [none]

end Removal

end NodeLending
