import NodeLending.Pass.Outcome
import NodeLending.Pool.Inventory

/-!
# Pools

What others see of a pool is its view: the revision that it follows together with the nodes it
manages. A view is replaced as a whole at the end of a pass, so a reader never sees half of one.
Beside the view stands the error of the last pass.

## Main definitions

* `PoolView`, `Pool`, with `Pool.install`, `Pool.setError` and `Pool.reset`.
-/

namespace NodeLending

/-- What others see of a pool. -/
structure PoolView where
  /-- The revision that the pool follows. -/
  snapshot : Option Snapshot
  /-- The nodes. -/
  inventory : Inventory
  deriving DecidableEq, Repr

namespace PoolView

/-- The view of a pool that follows no revision. -/
def empty : PoolView := ⟨none, ∅⟩

/-- Whether a text names a node of the pool; a text that is no name does not. -/
def hasNode (v : PoolView) (text : String) : Bool :=
  match Name.parse? .node text with
  | .ok name => v.inventory.contains name
  | .error _ => false

end PoolView

/-- A pool. -/
structure Pool where
  /-- What others see of it. -/
  view : PoolView
  /-- Whether it has ever followed a revision. -/
  activated : Bool
  /-- Why the last pass failed. -/
  error : Option PassError
  deriving DecidableEq, Repr

namespace Pool

/-- The pool before its first pass. -/
def empty : Pool := ⟨.empty, false, none⟩

/-- Follow a revision. -/
def install (p : Pool) (snapshot : Snapshot) (inventory : Inventory) : Pool :=
  { p with view := ⟨some snapshot, inventory⟩, activated := true }

/-- Keep how the last pass ended. -/
def setError (p : Pool) (error : Option PassError) : Pool := { p with error }

/-- Forget everything. Nodes that the engine still has are found again by later passes. -/
def reset (_ : Pool) : Pool := empty

/-- What is wrong with the pool. -/
def diagnosis (p : Pool) : Option String := p.error.map PassError.message

end Pool

end NodeLending
