import NodeLending.Engine.Basic
import NodeLending.Label.Expr
import NodeLending.Message
import NodeLending.Party

/-!
# The queue of reservations

A reservation is demand for one node. It waits until it is bound to a node and stays bound until it
is completed; a completed one may be forgotten. Reservations are numbered in the order of their
arrival, which is also the order in which the queue lists them.

## Main definitions

* `Reservation` with its `Reservation.Stage`.
* `Queue` with `Queue.enqueue`, `Queue.bind`, `Queue.prune`, and what can be seen of
  it: `Queue.stage?`, `Queue.isLive`, `Queue.pending`, `Queue.demand`.
-/

namespace NodeLending

/-- How far a reservation has come. -/
inductive Reservation.Stage where
  /-- It waits for a node. -/
  | pending
  /-- It runs on a node. -/
  | bound (node : NodeName)
  /-- It has run on a node. -/
  | completed (node : NodeName)
  deriving DecidableEq, Repr

namespace Reservation.Stage

/-- Whether the reservation waits for a node. -/
def isPending : Stage → Bool
  | pending => true
  | _ => false

/-- Whether the reservation waits or runs. -/
def isLive : Stage → Bool
  | completed _ => false
  | _ => true

end Reservation.Stage

/-- Demand for one node. -/
structure Reservation where
  /-- The party that it belongs to. -/
  owner : Party
  /-- Which nodes it accepts. -/
  label : Label.Expr
  /-- How far it has come. -/
  stage : Reservation.Stage
  deriving DecidableEq, Repr

/-- The reservations in the order of their arrival. -/
structure Queue where
  /-- The reservations. -/
  entries : Keyed ReservationId Reservation
  /-- The number of the next one. -/
  next : UInt64
  deriving DecidableEq, Repr

namespace Queue

/-- The queue without reservations. -/
def empty : Queue := ⟨∅, 1⟩

/-- Add demand of a party. -/
def enqueue (q : Queue) (owner : Party) (label : Label.Expr) : ReservationId × Queue :=
  let id : ReservationId := ⟨q.next⟩
  (id, ⟨q.entries.insert id ⟨owner, label, .pending⟩, q.next + 1⟩)

/-- Put a reservation at a stage. -/
def setStage (q : Queue) (id : ReservationId) (stage : Reservation.Stage) : Queue :=
  match q.entries.find? id with
  | some r => { q with entries := q.entries.insert id { r with stage } }
  | none => q

/-- Let a reservation run on a node. -/
def bind (q : Queue) (b : Binding) : Queue := q.setStage b.reservation (.bound b.node)

/-- Forget what is completed. -/
def prune (q : Queue) : Queue :=
  { q with entries := q.entries.filter fun _ r => r.stage.isLive }

/-- How many reservations are forgotten by pruning. -/
def pruned (q : Queue) : Nat := q.entries.size - q.prune.entries.size

/-! ### What can be seen of a queue -/

/-- How far a reservation has come. -/
def stage? (q : Queue) (id : ReservationId) : Option Reservation.Stage :=
  (q.entries.find? id).map Reservation.stage

/-- Whether a reservation waits or runs. -/
def isLive (q : Queue) (id : ReservationId) : Bool :=
  (q.stage? id).any Reservation.Stage.isLive

/-- The reservations that wait, in the order of their arrival. -/
def pending (q : Queue) : List (ReservationId × Reservation) :=
  q.entries.entries.filter fun e => e.2.stage.isPending

/-- The reservations that wait, as they are reported. -/
def demand (q : Queue) : List WorkloadItem :=
  q.pending.map fun e => ⟨e.1, e.2.label.print, e.2.owner.name⟩

end Queue

end NodeLending
