import NodeLending.Engine.Basic
import NodeLending.Keyed
import NodeLending.Label.Expr
import NodeLending.Removal

/-!
# The inventory of a pool

A pool manages the nodes that it has brought to the engine. Each carries the definition that has
been applied to it, which may lag behind the one that is declared, and a removal state. Only active
nodes serve labels and take reservations. Besides its labels a node can always be asked for by its
own name.

## Main definitions

* `ManagedNode`, with the labels that it serves.
* `Inventory`, with `Inventory.servedLabels`, `Inventory.candidates` and `Inventory.select`.

## Main results

* `Inventory.mem_candidates`: which nodes may be lent.
-/

namespace NodeLending

/-- The texts of a list in ascending order, each once. -/
def ascending (texts : List String) : List String :=
  (Keyed.ofList (texts.map fun s => (s, ()))).keys

/-- A node that the pool has brought to the engine. -/
structure ManagedNode where
  /-- The name. -/
  name : NodeName
  /-- The definition that has been applied. -/
  definition : NodeDefinition
  /-- What the engine knows the node by. -/
  handle : NodeHandle
  /-- Whether the node is in service. -/
  removal : Removal
  deriving DecidableEq, Repr

namespace ManagedNode

/-- Whether the node is in service. -/
def isActive (n : ManagedNode) : Bool := n.removal.isActive

/-- What the node can be asked for by: its labels and its name. -/
def labels (n : ManagedNode) : List String := ascending (n.definition.atoms ++ [n.name.text])

/-- Whether the node may be lent for a label expression. -/
def serves (n : ManagedNode) (label : Label.Expr) : Bool := n.isActive && label.accepts n.labels

end ManagedNode

/-- The nodes of a pool. -/
abbrev Inventory := Keyed NodeName ManagedNode

namespace Inventory

/-- What the active nodes can be asked for by. -/
def servedLabels (i : Inventory) : List String :=
  ascending ((i.values.filter ManagedNode.isActive).flatMap ManagedNode.labels)

/-- The nodes that may be lent for a label expression. -/
def candidates (i : Inventory) (label : Label.Expr) : List NodeName :=
  (i.values.filter fun n => n.serves label).map ManagedNode.name

/-- The node that is lent for a label expression, the least of those that are idle. -/
def select (i : Inventory) (label : Label.Expr) (isIdle : NodeName → Bool) : Option NodeName :=
  (i.candidates label).find? isIdle

/-- The nodes that may be lent are those that are there and serve the label expression. -/
theorem mem_candidates {i : Inventory} {label : Label.Expr} {n : NodeName} :
    n ∈ i.candidates label ↔
      ∃ name node, i.find? name = some node ∧ node.serves label = true ∧ node.name = n := by
  rw [candidates, List.mem_map]
  constructor
  · rintro ⟨node, hnode, hn⟩
    obtain ⟨hvalue, hserves⟩ := List.mem_filter.mp hnode
    obtain ⟨name, hname⟩ := Keyed.mem_values.mp hvalue
    exact ⟨name, node, hname, hserves, hn⟩
  · rintro ⟨name, node, hname, hserves, hn⟩
    exact ⟨node, List.mem_filter.mpr ⟨Keyed.mem_values.mpr ⟨name, hname⟩, hserves⟩, hn⟩

end Inventory

end NodeLending
