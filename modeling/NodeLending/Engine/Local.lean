import NodeLending.Engine.Basic
import NodeLending.Keyed

/-!
# The engine in memory

This engine keeps its nodes in memory and lets one reservation at a time run on each. A node that
is in use can be neither redefined nor removed. Incarnations are numbered in the order in which
nodes are created; a call that is refused uses up no number and changes nothing.

The engine can be told to fail. It then refuses to create, redefine and remove nodes, while
reservations go on.

## Main definitions

* `LocalEngine` with `LocalEngine.create`, `LocalEngine.update`, `LocalEngine.remove`,
  `LocalEngine.submit`, `LocalEngine.complete`.
* `LocalEngine.answer`: the answer to a call and the engine after it.

## Main results

* `LocalEngine.isIdle_iff`: idle nodes are those that no reservation occupies.
-/

namespace NodeLending

/-- A node of the engine. -/
structure EngineNode where
  /-- What the engine knows the node by. -/
  handle : NodeHandle
  /-- How the node is defined. -/
  definition : NodeDefinition
  /-- The reservation that runs on it. -/
  occupant : Option ReservationId
  deriving DecidableEq, Repr

/-- An engine that keeps its nodes in memory. -/
structure LocalEngine where
  /-- The nodes. -/
  nodes : Keyed NodeName EngineNode
  /-- The number of the next incarnation. -/
  next : UInt64
  /-- Whether the engine has been told to fail. -/
  failing : Bool
  deriving DecidableEq, Repr

namespace LocalEngine

open Engine (Call)

/-- The engine without nodes. -/
def empty : LocalEngine := ⟨∅, 1, false⟩

/-- The reservation that runs on a node. -/
def occupant? (e : LocalEngine) (name : NodeName) : Option ReservationId :=
  (e.nodes.find? name).bind EngineNode.occupant

/-- Whether no reservation runs on a node. A node that is not there is idle. -/
def isIdle (e : LocalEngine) (name : NodeName) : Bool := (e.occupant? name).isNone

/-- Why an engine fails that has been told to. -/
def toldToFail : EngineError := .failed "local engine configured to fail"

/-- A node that is there and that no reservation runs on. -/
def idleNode (e : LocalEngine) (name : NodeName) : Except EngineError EngineNode :=
  match e.nodes.find? name with
  | none => .error (.unknownNode name)
  | some node =>
    match node.occupant with
    | some occupant => .error (.occupied name occupant)
    | none => .ok node

/-! ### The calls -/

/-- Create a node, which must not be there. -/
def create (e : LocalEngine) (name : NodeName) (definition : NodeDefinition) :
    Except EngineError (NodeHandle × LocalEngine) :=
  if e.failing then .error toldToFail
  else if e.nodes.contains name then .error (.alreadyExists name)
  else
    let handle := ⟨name, e.next⟩
    .ok (handle, { e with
      nodes := e.nodes.insert name ⟨handle, definition, none⟩
      next := e.next + 1 })

/-- Redefine an idle node. The node keeps its own handle. -/
def update (e : LocalEngine) (name : NodeName) (definition : NodeDefinition) :
    Except EngineError (NodeHandle × LocalEngine) :=
  if e.failing then .error toldToFail
  else
    (e.idleNode name).map fun node =>
      (node.handle, { e with nodes := e.nodes.insert name { node with definition } })

/-- Remove an idle node. -/
def remove (e : LocalEngine) (name : NodeName) : Except EngineError (Unit × LocalEngine) :=
  if e.failing then .error toldToFail
  else (e.idleNode name).map fun _ => ((), { e with nodes := e.nodes.erase name })

/-- What is known of a node. -/
def existing (e : LocalEngine) (name : NodeName) : Option (NodeHandle × NodeDefinition) :=
  (e.nodes.find? name).map fun node => (node.handle, node.definition)

/-- Run a reservation on an idle node. -/
def submit (e : LocalEngine) (b : Binding) : Except EngineError (Unit × LocalEngine) :=
  (e.idleNode b.node).map fun node =>
    ((), { e with nodes := e.nodes.insert b.node { node with occupant := some b.reservation } })

/-- End a reservation that runs on its node. -/
def complete (e : LocalEngine) (b : Binding) : Except EngineError (Binding × LocalEngine) :=
  match e.nodes.find? b.node with
  | none => .error (.unknownNode b.node)
  | some node =>
    if node.occupant = some b.reservation then
      .ok (b, { e with nodes := e.nodes.insert b.node { node with occupant := none } })
    else .error (.notRunning b.node b.reservation)

/-- The answer to a call that may be refused, and the engine after it; a refusal changes
nothing. -/
def settle {α : Type} (e : LocalEngine) :
    Except EngineError (α × LocalEngine) → Except EngineError α × LocalEngine
  | .ok (a, e') => (.ok a, e')
  | .error err => (.error err, e)

/-- The answer to a call, and the engine after it. Nodes are found by their names alone. -/
def answer : (c : Call) → LocalEngine → c.Answer × LocalEngine
  | .isIdle name, e => (e.isIdle name, e)
  | .create name definition, e => e.settle (e.create name definition)
  | .update handle definition, e => e.settle (e.update handle.name definition)
  | .remove handle, e => e.settle (e.remove handle.name)
  | .existing name, e => (e.existing name, e)
  | .submit binding, e => e.settle (e.submit binding)
  | .complete binding, e => e.settle (e.complete binding)

/-! ### Idle nodes -/

/-- A node is idle exactly when no reservation runs on it. -/
theorem isIdle_iff {e : LocalEngine} {name : NodeName} :
    e.isIdle name = true ↔ e.occupant? name = none := by
  rw [isIdle, Option.isNone_iff_eq_none]

end LocalEngine

end NodeLending
