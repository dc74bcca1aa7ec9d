import NodeLending.ChangePlan
import NodeLending.Engine.Basic
import NodeLending.Pass.Outcome
import NodeLending.Pool.Inventory

/-!
# What a pass does with a node

A pass keeps, creates, redefines or retires a node. Each of these changes is an activity of its
own, which makes calls for that node only and has an outcome for that node only. A busy node is
neither redefined nor removed; the change is left to a later pass. Since a node may be taken
between the look at it and the call, a call that the engine refuses for that reason counts as if
the node had been found busy.

A node that is not declared is out of service before the engine is asked to remove it, so a failed
removal never leaves the node in service.

## Main definitions

* `Change`: what is done with a node, and `Change.plan` the changes that a revision asks for.
* `Change.Outcome`, and `Change.carryOut`.
-/

namespace NodeLending

/-- What a pass does with a node. -/
inductive Change where
  /-- The node has the definition that is declared. -/
  | keep (node : ManagedNode)
  /-- The node is declared and not managed. -/
  | create (definition : NodeDefinition)
  /-- The node is declared with another definition than it has. -/
  | redefine (node : ManagedNode) (definition : NodeDefinition)
  /-- The node is not declared. -/
  | retire (node : ManagedNode)
  deriving DecidableEq, Repr

namespace Change

open Engine (Exchange)

/-- The changes that bring an inventory in line with the nodes that are declared. -/
def plan (declared : Keyed NodeName NodeDefinition) (inventory : Inventory) :
    List (NodeName × Change) :=
  let p := ChangePlan.between declared inventory ManagedNode.definition
  (p.unchanged.filterMap fun name => (inventory.find? name).map fun node => (name, keep node)) ++
  (p.create.filterMap fun name => (declared.find? name).map fun d => (name, create d)) ++
  (p.update.filterMap fun name => do
    return (name, redefine (← inventory.find? name) (← declared.find? name))) ++
  (p.remove.filterMap fun name => (inventory.find? name).map fun node => (name, retire node))

/-- What has become of a node. -/
structure Outcome where
  /-- The node, if the pool manages it now. -/
  node : Option ManagedNode
  /-- What has been done. -/
  report : PassReport
  /-- What went wrong. -/
  failure : Option String := none
  deriving DecidableEq, Repr

/-- The node is declared. -/
def declare (node : ManagedNode) : ManagedNode :=
  { node with removal := node.removal.onDeclared }

/-- The count of a node that is declared again. -/
def reactivation (node : ManagedNode) : PassReport :=
  if node.isActive then {} else { reactivated := 1 }

/-- Apply a definition to a node unless it is busy. -/
def applyDefinition (node : ManagedNode) (definition : NodeDefinition) : Exchange Outcome := do
  if ← Engine.isIdle node.name then
    match ← Engine.update node.handle definition with
    | .ok handle => return ⟨some { node with definition, handle }, { updated := 1 }, none⟩
    | .error (.occupied _ _) => return ⟨some node, { deferred := 1 }, none⟩
    | .error e => return ⟨some node, {}, some s!"update '{node.name.text}': {e.message}"⟩
  else return ⟨some node, { deferred := 1 }, none⟩

/-- Take over a node that the engine has already. -/
def adopt (name : NodeName) (definition : NodeDefinition) : Exchange Outcome := do
  match ← Engine.existing name with
  | none => return ⟨none, {}, some s!"adopt '{name.text}': node vanished"⟩
  | some (handle, applied) =>
    let node : ManagedNode := ⟨name, applied, handle, .active⟩
    if applied = definition then return ⟨some node, { adopted := 1 }, none⟩
    else
      let o ← applyDefinition node definition
      return { o with report := { adopted := 1 } + o.report }

/-- Bring a node to the engine. -/
def bring (name : NodeName) (definition : NodeDefinition) : Exchange Outcome := do
  match ← Engine.create name definition with
  | .ok handle => return ⟨some ⟨name, definition, handle, .active⟩, { created := 1 }, none⟩
  | .error (.alreadyExists _) => adopt name definition
  | .error e => return ⟨none, {}, some s!"create '{name.text}': {e.message}"⟩

/-- Remove a node as soon as it is idle. A node that the engine does not have any more is gone. -/
def remove (name : NodeName) (node : ManagedNode) : Exchange Outcome := do
  let idle ← Engine.isIdle name
  match node.removal.onUndeclared idle with
  | some removal => return ⟨some { node with removal }, { pendingRemoval := 1 }, none⟩
  | none =>
    let parked := { node with removal := .pending }
    match ← Engine.remove node.handle with
    | .ok () => return ⟨none, { removed := 1 }, none⟩
    | .error (.unknownNode _) => return ⟨none, { removed := 1 }, none⟩
    | .error (.occupied _ _) => return ⟨some parked, { pendingRemoval := 1 }, none⟩
    | .error e =>
      return ⟨some parked, { pendingRemoval := 1 }, some s!"remove '{name.text}': {e.message}"⟩

/-- Carry out the change of a node. -/
def carryOut (name : NodeName) : Change → Exchange Outcome
  | keep node => return ⟨some (declare node), { unchanged := 1 } + reactivation node, none⟩
  | create definition => bring name definition
  | redefine node definition => do
    let o ← applyDefinition (declare node) definition
    return { o with report := reactivation node + o.report }
  | retire node => remove name node

end Change

end NodeLending
