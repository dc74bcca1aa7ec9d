import NodeLending.Pass.Change
import NodeLending.Pool.View

/-!
# Passes

A pass reads a revision of the repository, carries out the changes that it asks for one node after
the other, and publishes the revision together with the nodes that came of it. A revision that
cannot be had or is rejected leaves everything as it was. A node that cannot be brought in line does
not keep the others from it: the pass goes on and names the first failure in the end.

## Main definitions

* `Progress`: the state of a pass, and `Progress.carryOut` the changes in turn.
* `Pass.read`, `Pass.perform`, `Pass.publish`: the revision, the changes and the end of a pass.
-/

namespace NodeLending

/-- How far a pass has come. -/
structure Progress where
  /-- The nodes of the pool. -/
  inventory : Inventory
  /-- What has been done. -/
  report : PassReport
  /-- What went wrong, in order. -/
  failures : List String
  deriving DecidableEq, Repr

namespace Progress

open Engine (Exchange)

/-- The start of a pass. -/
def start (inventory : Inventory) : Progress := ⟨inventory, {}, []⟩

/-- Take note of what has become of a node. -/
def note (p : Progress) (name : NodeName) (o : Change.Outcome) : Progress where
  inventory := match o.node with
    | some node => p.inventory.insert name node
    | none => p.inventory.erase name
  report := p.report + o.report
  failures := p.failures ++ o.failure.toList

/-- Carry out changes in turn. -/
def carryOut (p : Progress) : List (NodeName × Change) → Exchange Progress
  | [] => return p
  | (name, change) :: rest => do
    let o ← change.carryOut name
    (p.note name o).carryOut rest

/-- How a pass ends that has come this far. -/
def result (p : Progress) : PassResult :=
  match p.failures with
  | [] => .ok p.report
  | first :: _ => .error (.apply p.failures.length first)

end Progress

namespace Pass

open Engine (Exchange)

/-- The revision that a pass follows. The URLs of its parties are read with the step to ASCII that
needs no tables. -/
def read (fetched : Except FetchError FileTree) : Except PassError Snapshot :=
  match fetched with
  | .error e => .error (.fetch e)
  | .ok tree => (Snapshot.read tree).mapError .config

/-- Carry out the changes that a revision asks for. -/
def perform (snapshot : Snapshot) (inventory : Inventory) : Exchange Progress :=
  (Progress.start inventory).carryOut (Change.plan snapshot.nodes inventory)

/-- What a failed pass leaves of the pool. -/
def reject (pool : Pool) (e : PassError) : Pool := pool.setError (some e)

/-- Publish the end of a pass that followed a revision. -/
def publish (pool : Pool) (snapshot : Snapshot) (p : Progress) : Pool :=
  let error := match p.result with
    | .ok _ => none
    | .error e => some e
  (pool.install snapshot p.inventory).setError error

/-- A pass over what has been fetched: how it ends, and the pool after it. -/
def run (fetched : Except FetchError FileTree) (pool : Pool) : Exchange (PassResult × Pool) :=
  match read fetched with
  | .error e => return (.error e, reject pool e)
  | .ok snapshot => do
    let p ← perform snapshot pool.view.inventory
    return (p.result, publish pool snapshot p)

end Pass

end NodeLending
