import NodeLending.Deployment.Event
import NodeLending.Proofs.Pass.Calls
import NodeLending.Proofs.Reservation.Seating

/-!
# The parts of events

Every event of a deployment is made of a few acts: what a pass does once its fetch has ended, a
cycle over the reservations, the end of one of them, and so on. Passes that wait for one another and
workers that repeat themselves are sequences of such acts, so what every act keeps is kept by every
run.

An act may also be one that no event has as a part: a cycle over a view that is not the published
one, as when a cycle has read the view before a pass replaced it.

## Main definitions

* `Act`, `Deployment.act`, `Deployment.acts`: the acts, and what they make of a deployment.
* `Act.PartOf`: the acts that an event may be made of.

## Main results

* `Deployment.leads_after`: a run of events is a sequence of acts, each of which is a part of one of
  the events.
* `Deployment.acts_induction`: what every act keeps is kept by a sequence of acts.
* `Deployment.seating_maintained`, `Deployment.release_completed`, `Deployment.applied_invariant`:
  what cycles, ends of reservations and passes do to the engine.
-/

namespace NodeLending

/-- What events are made of. -/
inductive Act where
  /-- A pass goes on with what has been fetched. -/
  | apply (fetched : Except FetchError FileTree)
  /-- A pass finds that there is no repository. -/
  | giveUp
  /-- What neither reservations nor nodes depend on changes. -/
  | arrange (hosting : Hosting) (flight : Flight) (ledger : Ledger)
  /-- The pool forgets everything. -/
  | reset
  /-- The engine is told to fail, or not to fail any more. -/
  | setFailing (failing : Bool)
  /-- A kind of call for a node has a fault from now on, or none. -/
  | setFault (kind : Engine.Call.Kind) (node : NodeName) (fault : Option Fault)
  /-- The engine is called. -/
  | call (c : Engine.Call)
  /-- A party adds demand. -/
  | enqueue (owner : Party) (label : Label.Expr)
  /-- Waiting reservations are bound to nodes of the published view. -/
  | maintain
  /-- Waiting reservations are bound to nodes of a view that need not be the published one. -/
  | maintainOver (view : PoolView)
  /-- A reservation ends. -/
  | complete (id : ReservationId)
  /-- Completed reservations are forgotten. -/
  | prune

/-- The event has to do with passes. -/
def Event.IsPass : Event → Prop
  | .run | .tryRun | .start | .deliver => True
  | _ => False

/-- The acts that an event may be made of. -/
inductive Act.PartOf : Act → Event → Prop
  | apply (fetched : Except FetchError FileTree) {e : Event} (h : e.IsPass) :
      PartOf (.apply fetched) e
  | giveUp {e : Event} (h : e.IsPass) : PartOf .giveUp e
  | arrange {hosting : Hosting} {flight : Flight} {ledger : Ledger} {e : Event} :
      PartOf (.arrange hosting flight ledger) e
  | reset : PartOf .reset .reset
  | setFailing (failing : Bool) : PartOf (.setFailing failing) (.setFailing failing)
  | setFault (kind : Engine.Call.Kind) (node : NodeName) (fault : Option Fault) :
      PartOf (.setFault kind node fault) (.setFault kind node fault)
  | call (c : Engine.Call) : PartOf (.call c) (.call c)
  | enqueue (owner : Party) (label : Label.Expr) :
      PartOf (.enqueue owner label) (.enqueue owner label)
  | maintain : PartOf .maintain .maintain
  | complete (id : ReservationId) : PartOf (.complete id) (.complete id)
  | prune : PartOf .prune .prune
  | cycleMaintain : PartOf .maintain .cycle
  | cyclePrune : PartOf .prune .cycle

namespace Deployment

/-- The outcome of a pass over what has been fetched. -/
def applied (d : Deployment) (fetched : Except FetchError FileTree) :
    (PassResult × Pool) × Machinery :=
  (Pass.run fetched d.pool).run Machinery.answer d.machinery

/-- The outcome of a cycle over a view. -/
def maintained (d : Deployment) (view : PoolView) : (List Binding × Queue) × Machinery :=
  (d.queue.maintain view.inventory).run Machinery.answer d.machinery

/-- The outcome of the end of a reservation. -/
def completed (d : Deployment) (id : ReservationId) :
    (Except MatchError Binding × Queue) × Machinery :=
  (d.queue.complete id).run Machinery.answer d.machinery

/-- Replace the engine with its faults. -/
def withMachinery (d : Deployment) (machinery : Machinery) : Deployment := { d with machinery }

/-- The deployment after an act. -/
def act (d : Deployment) : Act → Deployment
  | .apply fetched => (d.withMachinery (d.applied fetched).2).withPool (d.applied fetched).1.2
  | .giveUp => d.withPool (Pass.reject d.pool .notConfigured)
  | .arrange hosting flight ledger => { d.withLedger ledger with hosting, flight }
  | .reset => d.withPool d.pool.reset
  | .setFailing failing => d.withMachinery (d.machinery.setFailing failing)
  | .setFault kind node fault => d.withMachinery (d.machinery.setFault kind node fault)
  | .call c => d.withMachinery (d.machinery.answer c).2
  | .enqueue owner label => d.withQueue (d.queue.enqueue owner label).2
  | .maintain =>
    (d.withMachinery (d.maintained d.pool.view).2).withQueue (d.maintained d.pool.view).1.2
  | .maintainOver view => (d.withMachinery (d.maintained view).2).withQueue (d.maintained view).1.2
  | .complete id => (d.withMachinery (d.completed id).2).withQueue (d.completed id).1.2
  | .prune => d.withQueue d.queue.prune

/-- The deployment after acts. -/
def acts (d : Deployment) (l : List Act) : Deployment := l.foldl act d

/-! ### What acts do -/

/-- A cycle of a deployment makes bindings one after the other. -/
theorem seating_maintained (d : Deployment) (view : PoolView) :
    Queue.Seating view.inventory d.queue d.machinery.engine (d.maintained view).1.1
      (d.maintained view).1.2 (d.maintained view).2.engine :=
  ((d.queue.ensures_maintain view.inventory d.machinery.engine).run (v := Machinery.engine)
    (I := fun _ => True) (fun c m _ => ⟨trivial, m.reacts c⟩) trivial).2

/-- The end of a reservation takes effect in the queue and on the engine, or it is refused and
changes nothing. -/
theorem release_completed (d : Deployment) (id : ReservationId) :
    (∃ b, (d.completed id).1.1 = .ok b ∧ Queue.Release d.queue d.machinery.engine id b
      (d.completed id).1.2 (d.completed id).2.engine) ∨
    (∃ err, (d.completed id).1.1 = .error err) ∧ (d.completed id).1.2 = d.queue ∧
      (d.completed id).2.engine = d.machinery.engine :=
  ((d.queue.ensures_complete id d.machinery.engine).run (v := Machinery.engine)
    (I := fun _ => True) (fun c m _ => ⟨trivial, m.reacts c⟩) trivial).2

/-- What every call other than the start and the end of a reservation keeps is kept by a pass. -/
theorem applied_invariant {I : LocalEngine → Prop}
    (hI : ∀ c e a e', c.isExecution = false → LocalEngine.Reacts c e a e' → I e → I e')
    {d : Deployment} (fetched : Except FetchError FileTree) (hd : I d.machinery.engine) :
    I (d.applied fetched).2.engine :=
  (Pass.asks_run fetched d.pool).run (I := fun m : Machinery => I m.engine)
    (fun c (m : Machinery) hc hm => hI c _ _ _ hc (m.reacts c) hm) hd

variable {d : Deployment} {P : Act → Prop}

/-! ### Sequences of acts -/

theorem acts_append (d : Deployment) (l l' : List Act) : d.acts (l ++ l') = (d.acts l).acts l' :=
  List.foldl_append

/-- What every act keeps is kept by a sequence of acts. -/
theorem acts_induction {I : Deployment → Prop} (h : ∀ a d, P a → I d → I (d.act a))
    {l : List Act} (hl : ∀ a ∈ l, P a) {d : Deployment} (hd : I d) : I (d.acts l) := by
  induction l generalizing d with
  | nil => exact hd
  | cons a l ih =>
    exact ih (fun b hb => hl b (List.mem_cons_of_mem a hb)) (h a d (hl a List.mem_cons_self) hd)

/-- Acts of a kind lead from one deployment to another. -/
def Leads (P : Act → Prop) (d d' : Deployment) : Prop :=
  ∃ l : List Act, (∀ a ∈ l, P a) ∧ d' = d.acts l

namespace Leads

variable {d d' d'' : Deployment}

theorem refl (d : Deployment) : Leads P d d := ⟨[], by simp, rfl⟩

theorem act {a : Act} (ha : P a) (d : Deployment) : Leads P d (d.act a) := ⟨[a], by simpa, rfl⟩

theorem trans (h : Leads P d d') (h' : Leads P d' d'') : Leads P d d'' := by
  obtain ⟨l, hl, rfl⟩ := h
  obtain ⟨l', hl', rfl⟩ := h'
  refine ⟨l ++ l', fun a ha => ?_, (acts_append d l l').symm⟩
  exact (List.mem_append.mp ha).elim (hl a) (hl' a)

theorem mono {Q : Act → Prop} (h : Leads P d d') (hPQ : ∀ a, P a → Q a) : Leads Q d d' := by
  obtain ⟨l, hl, rfl⟩ := h
  exact ⟨l, fun a ha => hPQ a (hl a ha), rfl⟩

/-- What every act of a kind keeps is kept. -/
theorem invariant {I : Deployment → Prop} (hI : ∀ a d, P a → I d → I (d.act a))
    (h : Leads P d d') (hd : I d) : I d' := by
  obtain ⟨l, hl, rfl⟩ := h
  exact acts_induction hI hl hd

end Leads

/-! ### Events -/

theorem after_append (d : Deployment) (events events' : List Event) :
    d.after (events ++ events') = (d.after events).after events' :=
  List.foldl_append

theorem after_singleton (d : Deployment) (e : Event) : d.after [e] = (d.step e).2 := rfl

theorem leads_part {a : Act} {e : Event} (h : a.PartOf e) (d : Deployment) :
    Leads (·.PartOf e) d (d.act a) := .act h d

/-- What is arranged is a part of every event. -/
theorem leads_arrange (e : Event) (d : Deployment) (hosting : Hosting) (flight : Flight)
    (ledger : Ledger) :
    Leads (·.PartOf e) d { d.withLedger ledger with hosting, flight } :=
  leads_part (a := .arrange hosting flight ledger) .arrange d

theorem leads_withLedger (e : Event) (d : Deployment) (ledger : Ledger) :
    Leads (·.PartOf e) d (d.withLedger ledger) := leads_arrange e d d.hosting d.flight ledger

section Passes

variable {e : Event} (he : e.IsPass)

include he

theorem leads_pass (d : Deployment) : Leads (·.PartOf e) d d.pass.2 := by
  rw [pass]
  cases d.orchestrator.repository with
  | none => exact leads_part (.giveUp he) d
  | some location =>
    have hfetch := leads_arrange e d d.hosting.beginFetch d.flight d.orchestrator.ledger
    exact hfetch.trans (leads_part (.apply _ he) _)

theorem leads_passes (d : Deployment) (n : Nat) : Leads (·.PartOf e) d (d.passes n).2 := by
  induction n generalizing d with
  | zero => exact .refl d
  | succ n ih => exact (leads_pass he d).trans (ih d.pass.2)

theorem leads_run (d : Deployment) : Leads (·.PartOf e) d d.run.2 := by
  rw [run]
  split
  · exact leads_arrange e d d.hosting _ d.orchestrator.ledger
  · exact leads_pass he d

theorem leads_tryRun (d : Deployment) : Leads (·.PartOf e) d d.tryRun.2 := by
  rw [tryRun]
  split
  · exact .refl d
  · exact leads_pass he d

theorem leads_start (d : Deployment) : Leads (·.PartOf e) d d.start.2 := by
  rw [start]
  split
  · exact leads_arrange e d d.hosting _ d.orchestrator.ledger
  · split
    · exact leads_pass he d
    · exact leads_arrange e d d.hosting.beginFetch _ d.orchestrator.ledger

theorem leads_deliver (d : Deployment) : Leads (·.PartOf e) d d.deliver.2 := by
  rw [deliver]
  split
  · next waiting location _ _ =>
    have hland := leads_arrange e d d.hosting .idle d.orchestrator.ledger
    -- The pass that has been fetching goes on, and then those that have been waiting.
    have happly := hland.trans (leads_part (.apply (d.hosting.fetch location) he) _)
    exact happly.trans (leads_passes he _ waiting)
  · exact .refl d

end Passes

/-- A request has to do with the reported demand only. -/
theorem step_request (d : Deployment) (r : Api.Request) (now : Moment) : d.step (.request r now) =
    ((Api.respond d.orchestrator now r).1, d.withLedger (Api.respond d.orchestrator now r).2) := by
  rw [step, respond]

theorem exists_step_request (d : Deployment) (r : Api.Request) (now : Moment) :
    ∃ response ledger, d.step (.request r now) = (response, d.withLedger ledger) :=
  ⟨_, _, step_request d r now⟩

/-- An event is made of its parts. -/
theorem leads_step (d : Deployment) (e : Event) : Leads (·.PartOf e) d (d.step e).2 := by
  cases e with
  | run => exact leads_run (e := .run) trivial d
  | tryRun => exact leads_tryRun (e := .tryRun) trivial d
  | start => exact leads_start (e := .start) trivial d
  | deliver => exact leads_deliver (e := .deliver) trivial d
  | publish files =>
    exact leads_arrange _ d (d.hosting.publish files) d.flight d.orchestrator.ledger
  | patch removed added =>
    exact leads_arrange _ d (d.hosting.patch removed added) d.flight d.orchestrator.ledger
  | cutOff reason =>
    exact leads_arrange _ d (d.hosting.cutOff reason) d.flight d.orchestrator.ledger
  | reset => exact leads_part .reset d
  | setFailing failing => exact leads_part (.setFailing failing) d
  | setFault kind node fault => exact leads_part (.setFault kind node fault) d
  | call c => exact leads_part (.call c) d
  | enqueue owner label => exact leads_part (.enqueue owner label) d
  | maintain => exact leads_part .maintain d
  | cycle =>
    change Leads _ d d.cycle
    rw [cycle]
    split
    · exact (leads_part .cycleMaintain d).trans (leads_part .cyclePrune _)
    · exact .refl d
  | complete id => exact leads_part (.complete id) d
  | prune => exact leads_part .prune d
  | report party items now => exact leads_withLedger _ d _
  | request r now =>
    rw [step_request]
    exact leads_withLedger _ d _

/-- A run of events is a sequence of acts, each of which is a part of one of the events. -/
theorem leads_after (d : Deployment) (events : List Event) :
    Leads (fun a => ∃ e ∈ events, a.PartOf e) d (d.after events) := by
  induction events generalizing d with
  | nil => exact .refl d
  | cons e events ih =>
    have hstep := (leads_step d e).mono (Q := fun a => ∃ e' ∈ e :: events, a.PartOf e')
      fun a ha => ⟨e, List.mem_cons_self, ha⟩
    have hrest := (ih (d.step e).2).mono (Q := fun a => ∃ e' ∈ e :: events, a.PartOf e')
      fun a ⟨e', he', ha⟩ => ⟨e', List.mem_cons_of_mem e he', ha⟩
    exact hstep.trans hrest

end Deployment

/-! ### A node and a party for examples -/

namespace Sample

/-- A node. -/
def node : NodeName := ⟨"n1", by decide⟩

/-- What is declared of the node. -/
def definition : NodeDefinition := ⟨"a", none, ∅⟩

/-- The first incarnation of the node. -/
def handle : NodeHandle := ⟨node, 1⟩

/-- A view with the node in service. -/
def view : PoolView := ⟨none, Keyed.ofList [(node, ⟨node, definition, handle, .active⟩)]⟩

/-- A party. -/
def party : Party :=
  ⟨⟨"p1", by decide⟩, ⟨"https", "", "", none, none, .segments [], none, none⟩, none⟩

end Sample

end NodeLending
