import NodeLending.Api.Respond
import NodeLending.Engine.Fault
import NodeLending.Pass.Run
import NodeLending.Repository.Hosting
import NodeLending.Reservation.Matching

/-!
# Deployments

A deployment is an orchestrator together with what it works with: the engine and the hosted
repository. At most one pass is under way at a time. A pass that is under way waits for its fetch;
all else that it does happens at once when the fetch ends, and what it looks at is what it finds
then. A pass that is asked for meanwhile waits for its turn, or is refused if it must not wait.

## Main definitions

* `Deployment`, and `Flight`, the passes that are under way.
* `Deployment.run`, `Deployment.tryRun`, `Deployment.start`, `Deployment.deliver`: passes.
* `Deployment.maintain`, `Deployment.cycle`, `Deployment.complete`: reservations.
-/

namespace NodeLending

/-- The passes that are under way. -/
inductive Flight where
  /-- There is none. -/
  | idle
  /-- One waits for its fetch, and a number of others for their turns. -/
  | fetching (waiting : Nat)
  deriving DecidableEq, Repr

/-- An orchestrator together with what it works with. -/
structure Deployment where
  /-- The orchestrator. -/
  orchestrator : Orchestrator
  /-- The engine. -/
  machinery : Machinery
  /-- The repository. -/
  hosting : Hosting
  /-- The passes that are under way. -/
  flight : Flight

namespace Deployment

open Engine (Exchange Call)

/-- The deployment for a repository before anything has happened. -/
def new (repository : Option String) (files : FileTree) : Deployment :=
  ⟨.new repository, .empty, .new files, .idle⟩

/-- The pool. -/
def pool (d : Deployment) : Pool := d.orchestrator.pool

/-- The nodes of the pool. -/
def inventory (d : Deployment) : Inventory := d.pool.view.inventory

/-- The reservations. -/
def queue (d : Deployment) : Queue := d.orchestrator.queue

/-- Replace the pool. -/
def withPool (d : Deployment) (pool : Pool) : Deployment :=
  { d with orchestrator := { d.orchestrator with pool } }

/-- Replace the reservations. -/
def withQueue (d : Deployment) (queue : Queue) : Deployment :=
  { d with orchestrator := { d.orchestrator with queue } }

/-- Replace the demand that has been reported. -/
def withLedger (d : Deployment) (ledger : Ledger) : Deployment :=
  { d with orchestrator := { d.orchestrator with ledger } }

/-- Carry out an activity with the engine. -/
def carryOut {α : Type} (d : Deployment) (x : Exchange α) : α × Deployment :=
  let (a, machinery) := x.run Machinery.answer d.machinery
  (a, { d with machinery })

/-! ### Passes -/

/-- The pass that waits for its fetch goes on: the fetch from a location ends now. -/
def finish (d : Deployment) (location : String) : PassResult × Deployment :=
  let ((result, pool), d) := d.carryOut (Pass.run (d.hosting.fetch location) d.pool)
  (result, d.withPool pool)

/-- A pass that nothing else happens during. -/
def pass (d : Deployment) : PassResult × Deployment :=
  match d.orchestrator.repository with
  | none => (.error .notConfigured, d.withPool (Pass.reject d.pool .notConfigured))
  | some location => { d with hosting := d.hosting.beginFetch }.finish location

/-- A number of passes one after the other. -/
def passes (d : Deployment) : Nat → List PassResult × Deployment
  | 0 => ([], d)
  | n + 1 =>
    let (result, d) := d.pass
    let (results, d) := d.passes n
    (result :: results, d)

/-- Ask for a pass that is held in its fetch. It has to wait while another one is under way, and
it ends at once when there is nothing to fetch. -/
def start (d : Deployment) : Option PassResult × Deployment :=
  match d.flight with
  | .fetching waiting => (none, { d with flight := .fetching (waiting + 1) })
  | .idle =>
    match d.orchestrator.repository with
    | none =>
      let (result, d) := d.pass
      (some result, d)
    | some _ => (none, { d with hosting := d.hosting.beginFetch, flight := .fetching 0 })

/-- The fetch that is under way ends. Its pass is finished, and those that have been waiting
follow. -/
def deliver (d : Deployment) : List PassResult × Deployment :=
  match d.flight, d.orchestrator.repository with
  | .fetching waiting, some location =>
    let (first, d) := { d with flight := .idle }.finish location
    let (others, d) := d.passes waiting
    (first :: others, d)
  | _, _ => ([], d)

/-- Ask for a pass. It has to wait while another one is under way. -/
def run (d : Deployment) : Option PassResult × Deployment :=
  match d.flight with
  | .fetching waiting => (none, { d with flight := .fetching (waiting + 1) })
  | .idle =>
    let (result, d) := d.pass
    (some result, d)

/-- Ask for a pass that must not wait. -/
def tryRun (d : Deployment) : PassResult × Deployment :=
  match d.flight with
  | .fetching _ => (.error .inProgress, d)
  | .idle => d.pass

/-! ### Reservations -/

/-- Add demand of a party. -/
def enqueue (d : Deployment) (owner : Party) (label : Label.Expr) : ReservationId × Deployment :=
  let (id, queue) := d.queue.enqueue owner label
  (id, d.withQueue queue)

/-- Bind waiting reservations to nodes. -/
def maintain (d : Deployment) : List Binding × Deployment :=
  let ((bindings, queue), d) := d.carryOut (d.queue.maintain d.inventory)
  (bindings, d.withQueue queue)

/-- End a reservation. -/
def complete (d : Deployment) (id : ReservationId) : Except MatchError Binding × Deployment :=
  let ((result, queue), d) := d.carryOut (d.queue.complete id)
  (result, d.withQueue queue)

/-- Forget what is completed; the result is the number of reservations forgotten. -/
def prune (d : Deployment) : Nat × Deployment :=
  (d.queue.pruned, d.withQueue d.queue.prune)

/-- What is done for reservations from time to time. It is left out as long as the pool has
followed no revision. -/
def cycle (d : Deployment) : Deployment :=
  if d.pool.activated then d.maintain.2.prune.2 else d

/-! ### Parties -/

/-- Take a report of a party. -/
def report (d : Deployment) (party : PartyName) (items : List WorkloadItem) (now : Moment) :
    Nat × Deployment :=
  (items.length, d.withLedger (d.orchestrator.ledger.record party items now))

/-- Respond to a request. -/
def respond (d : Deployment) (now : Moment) (r : Api.Request) : Api.Response × Deployment :=
  let (response, ledger) := Api.respond d.orchestrator now r
  (response, d.withLedger ledger)

end Deployment

end NodeLending
