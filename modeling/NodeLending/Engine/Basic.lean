import NodeLending.Dialogue
import NodeLending.Node.Definition
import NodeLending.Reservation.Id

/-!
# Engines

An engine keeps nodes and runs reservations on them. It is known by its calls alone: a node is
created, redefined in place, removed or looked up, and a reservation is submitted to a node and
completed there. Whether a node is idle can be asked too, and is a thing of the moment: the node
may be taken before the next call arrives.

An activity that makes such calls is a dialogue with an engine. It says nothing of how the engine
answers, so the same activity can be held against any engine.

## Main definitions

* `NodeHandle`, `Binding`, `EngineError`.
* `Engine.Call` with its answers, and `Engine.Exchange`, the activities that make calls.
-/

namespace NodeLending

/-- What an engine knows a node by. A redefinition keeps the incarnation of a node; a node that is
created anew under an old name has another one. -/
structure NodeHandle where
  /-- The name of the node. -/
  name : NodeName
  /-- The number of its incarnation. -/
  incarnation : UInt64
  deriving DecidableEq, Repr

/-- A reservation that runs on a node. -/
structure Binding where
  /-- The reservation. -/
  reservation : ReservationId
  /-- The node. -/
  node : NodeName
  /-- The party that the reservation belongs to. -/
  owner : PartyName
  deriving DecidableEq, Repr

/-- Why an engine refuses a call. -/
inductive EngineError where
  /-- There is no such node. -/
  | unknownNode (name : NodeName)
  /-- There is such a node already. -/
  | alreadyExists (name : NodeName)
  /-- A reservation runs on the node. -/
  | occupied (node : NodeName) (occupant : ReservationId)
  /-- The reservation does not run on the node. -/
  | notRunning (node : NodeName) (reservation : ReservationId)
  /-- The engine itself has failed. -/
  | failed (reason : String)
  deriving DecidableEq, Repr

/-- The wording of an engine error. -/
def EngineError.message : EngineError → String
  | .unknownNode name => s!"node '{name.text}' is not known to the engine"
  | .alreadyExists name => s!"node '{name.text}' already exists"
  | .occupied node occupant => s!"node '{node.text}' is occupied by reservation {occupant}"
  | .notRunning node reservation => s!"node '{node.text}' is not running reservation {reservation}"
  | .failed reason => s!"engine failure: {reason}"

namespace Engine

/-! ### Calls -/

/-- A call to an engine. -/
inductive Call where
  /-- Whether no reservation runs on the node. -/
  | isIdle (name : NodeName)
  /-- Create a node. -/
  | create (name : NodeName) (definition : NodeDefinition)
  /-- Redefine a node in place. -/
  | update (handle : NodeHandle) (definition : NodeDefinition)
  /-- Remove a node. -/
  | remove (handle : NodeHandle)
  /-- Look up a node. -/
  | existing (name : NodeName)
  /-- Run a reservation on a node. -/
  | submit (binding : Binding)
  /-- End a reservation and free its node. -/
  | complete (binding : Binding)
  deriving DecidableEq, Repr

namespace Call

/-- The answers to a call. -/
abbrev Answer : Call → Type
  | isIdle _ => Bool
  | create _ _ => Except EngineError NodeHandle
  | update _ _ => Except EngineError NodeHandle
  | remove _ => Except EngineError Unit
  | existing _ => Option (NodeHandle × NodeDefinition)
  | submit _ => Except EngineError Unit
  | complete _ => Except EngineError Binding

/-- The kinds of calls. -/
inductive Kind where
  /-- Whether a node is idle. -/
  | isIdle
  /-- Create a node. -/
  | create
  /-- Redefine a node. -/
  | update
  /-- Remove a node. -/
  | remove
  /-- Look up a node. -/
  | existing
  /-- Run a reservation. -/
  | submit
  /-- End a reservation. -/
  | complete
  deriving DecidableEq, Repr

/-- The kind of a call. -/
def kind : Call → Kind
  | isIdle _ => .isIdle
  | create _ _ => .create
  | update _ _ => .update
  | remove _ => .remove
  | existing _ => .existing
  | submit _ => .submit
  | complete _ => .complete

/-- The node that a call is about. -/
def node : Call → NodeName
  | isIdle name => name
  | create name _ => name
  | update handle _ => handle.name
  | remove handle => handle.name
  | existing name => name
  | submit binding => binding.node
  | complete binding => binding.node

end Call

/-- An activity that makes calls to an engine. -/
abbrev Exchange := Dialogue Call Call.Answer

/-- Ask whether no reservation runs on a node. -/
def isIdle (name : NodeName) : Exchange Bool := .ask (.isIdle name) .done

/-- Create a node. -/
def create (name : NodeName) (definition : NodeDefinition) :
    Exchange (Except EngineError NodeHandle) :=
  .ask (.create name definition) .done

/-- Redefine a node in place. -/
def update (handle : NodeHandle) (definition : NodeDefinition) :
    Exchange (Except EngineError NodeHandle) :=
  .ask (.update handle definition) .done

/-- Remove a node. -/
def remove (handle : NodeHandle) : Exchange (Except EngineError Unit) :=
  .ask (.remove handle) .done

/-- Look up a node. -/
def existing (name : NodeName) : Exchange (Option (NodeHandle × NodeDefinition)) :=
  .ask (.existing name) .done

/-- Run a reservation on a node. -/
def submit (binding : Binding) : Exchange (Except EngineError Unit) :=
  .ask (.submit binding) .done

/-- End a reservation and free its node. -/
def complete (binding : Binding) : Exchange (Except EngineError Binding) :=
  .ask (.complete binding) .done

/-- The first idle node of a list. The nodes behind it are not asked for. -/
def firstIdle : List NodeName → Exchange (Option NodeName)
  | [] => return none
  | name :: rest => do
    if ← isIdle name then return some name
    else firstIdle rest

end Engine

end NodeLending
