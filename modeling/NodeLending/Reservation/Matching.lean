import NodeLending.Engine.Basic
import NodeLending.Pool.Inventory
import NodeLending.Reservation.Queue

/-!
# Matching reservations with nodes

Demand is served in the order of its arrival. In a cycle each waiting reservation is bound to the
least idle node that may be lent for its label expression. One that finds no node stays where it is
and does not keep later ones from theirs; so does one whose node has just been taken, or cannot be
used, and it is tried again in the next cycle.

## Main definitions

* `Matching.tryBind`: one reservation.
* `Queue.maintain`: a cycle.
* `Queue.complete`: a reservation ends, with `MatchError`.
-/

namespace NodeLending

/-- Why a reservation cannot be completed. -/
inductive MatchError where
  /-- There is no such reservation. -/
  | unknownReservation (id : ReservationId)
  /-- The reservation does not run. -/
  | notBound (id : ReservationId)
  /-- The engine refuses. -/
  | engine (e : EngineError)
  deriving DecidableEq, Repr

/-- The wording of a match error. -/
def MatchError.message : MatchError → String
  | .unknownReservation id => s!"reservation {id} does not exist"
  | .notBound id => s!"reservation {id} is not bound to a node"
  | .engine e => e.message

namespace Matching

open Engine (Exchange)

/-- Bind a reservation to the least idle node that may be lent for it. -/
def tryBind (inventory : Inventory) (id : ReservationId) (r : Reservation) :
    Exchange (Option Binding) := do
  match ← Engine.firstIdle (inventory.candidates r.label) with
  | none => return none
  | some node =>
    let b : Binding := ⟨id, node, r.owner.name⟩
    match ← Engine.submit b with
    | .ok () => return some b
    | .error _ => return none

/-- Bind reservations in turn; the result lists those that have been bound. -/
def bindAll (inventory : Inventory) :
    List (ReservationId × Reservation) → Exchange (List Binding)
  | [] => return []
  | (id, r) :: rest => do
    let b ← tryBind inventory id r
    let bs ← bindAll inventory rest
    return b.toList ++ bs

end Matching

namespace Queue

open Engine (Exchange)

/-- A cycle over the reservations that wait. -/
def maintain (q : Queue) (inventory : Inventory) : Exchange (List Binding × Queue) := do
  let bs ← Matching.bindAll inventory q.pending
  return (bs, bs.foldl Queue.bind q)

/-- A reservation ends and frees its node. -/
def complete (q : Queue) (id : ReservationId) : Exchange (Except MatchError Binding × Queue) :=
  match q.entries.find? id with
  | none => return (.error (.unknownReservation id), q)
  | some r =>
    match r.stage with
    | .bound node => do
      match ← Engine.complete ⟨id, node, r.owner.name⟩ with
      | .ok b => return (.ok b, q.setStage id (.completed b.node))
      | .error e => return (.error (.engine e), q)
    | _ => return (.error (.notBound id), q)

end Queue

end NodeLending
