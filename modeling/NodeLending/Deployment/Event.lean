import NodeLending.Deployment.Basic

/-!
# What happens to a deployment

The history of a deployment is a list of events. Each has a result that whoever caused it gets to
see, and leads to another state.

Two workers repeat an event from time to time: one tries passes, the other looks after reservations.

## Main definitions

* `Event` with its results, `Deployment.step` and `Deployment.after`.
* `Event.ticks`: how often a worker acts.
-/

namespace NodeLending

/-- Something that happens to a deployment. -/
inductive Event where
  /-- A pass is asked for. -/
  | run
  /-- A pass is asked for that must not wait. -/
  | tryRun
  /-- A pass is asked for that is held in its fetch. -/
  | start
  /-- The fetch that is under way ends. -/
  | deliver
  /-- A revision of the repository is published. -/
  | publish (files : FileTree)
  /-- A revision is published without some of the files and with others in it. -/
  | patch (removed : List String) (added : List (String × String))
  /-- The repository gets out of reach. -/
  | cutOff (reason : String)
  /-- The pool forgets everything. -/
  | reset
  /-- The engine is told to fail, or not to fail any more. -/
  | setFailing (failing : Bool)
  /-- A kind of call for a node has a fault from now on, or none. -/
  | setFault (kind : Engine.Call.Kind) (node : NodeName) (fault : Option Fault)
  /-- The engine is called. -/
  | call (c : Engine.Call)
  /-- A party adds demand. -/
  | enqueue (owner : Party) (label : Label.Expr)
  /-- Waiting reservations are bound to nodes. -/
  | maintain
  /-- Reservations are looked after. -/
  | cycle
  /-- A reservation ends. -/
  | complete (id : ReservationId)
  /-- Completed reservations are forgotten. -/
  | prune
  /-- A party reports its demand. -/
  | report (party : PartyName) (items : List WorkloadItem) (now : Moment)
  /-- A request arrives. -/
  | request (r : Api.Request) (now : Moment)

namespace Event

/-- What whoever caused an event gets to see. -/
def Result : Event → Type
  | run => Option PassResult
  | tryRun => PassResult
  | start => Option PassResult
  | deliver => List PassResult
  | call c => c.Answer
  | enqueue _ _ => ReservationId
  | maintain => List Binding
  | complete _ => Except MatchError Binding
  | prune => Nat
  | report _ _ _ => Nat
  | request _ _ => Api.Response
  | publish _ | patch _ _ | cutOff _ | reset | setFailing _ | setFault _ _ _ | cycle => Unit

/-- How often a worker acts that starts at once, acts again after every interval, and is stopped
after a time. -/
def ticks (interval time : Nat) : Nat := time / interval + 1

end Event

namespace Deployment

/-- The result of an event, and the state after it. -/
def step (d : Deployment) : (e : Event) → e.Result × Deployment
  | .run => d.run
  | .tryRun => d.tryRun
  | .start => d.start
  | .deliver => d.deliver
  | .publish files => ((), { d with hosting := d.hosting.publish files })
  | .patch removed added => ((), { d with hosting := d.hosting.patch removed added })
  | .cutOff reason => ((), { d with hosting := d.hosting.cutOff reason })
  | .reset => ((), d.withPool d.pool.reset)
  | .setFailing failing => ((), { d with machinery := d.machinery.setFailing failing })
  | .setFault kind node fault =>
    ((), { d with machinery := d.machinery.setFault kind node fault })
  | .call c =>
    let (answer, machinery) := d.machinery.answer c
    (answer, { d with machinery })
  | .enqueue owner label => d.enqueue owner label
  | .maintain => d.maintain
  | .cycle => ((), d.cycle)
  | .complete id => d.complete id
  | .prune => d.prune
  | .report party items now => d.report party items now
  | .request r now => d.respond now r

/-- The state after events. -/
def after (d : Deployment) (events : List Event) : Deployment :=
  events.foldl (fun d e => (d.step e).2) d

/-- The state after an event that is repeated. -/
def afterTicks (d : Deployment) (e : Event) (n : Nat) : Deployment :=
  d.after (List.replicate n e)

end Deployment

end NodeLending
