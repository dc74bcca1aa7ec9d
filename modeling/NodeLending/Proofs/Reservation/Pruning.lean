import NodeLending.Proofs.Deployment.Traffic
import NodeLending.Proofs.Reservation.Occupancy

/-!
# Pruning goes unnoticed

A completed reservation waits for nothing and holds no node, so it may be forgotten at any time.
What depends on the reservations depends on those that wait or run, which pruning keeps, and on the
next number, which it keeps as well. So a run into which pruning has been inserted at arbitrary
points, as the worker does with every cycle, goes through the same states, except that some of the
completed reservations are missing, and gives the same results. Only who asks for a completed
reservation by its number may be told that there is no such reservation.

The two runs are compared state by state: one queue is the other one without some of its completed
reservations, and every event keeps this up.

## Main definitions

* `Queue.Forgets`: a queue without some of the completed reservations.
* `Event.Interspersed`: pruning is inserted into a run.
* `Deployment.LooksLike`: a deployment cannot be told from another one.
* `Deployment.moments`: the states of a run, each with the event that happens then.

## Main results

* `Queue.Forgets.pending_eq`, `Queue.Forgets.isLive_eq`: what waits and what is live is the same.
* `Deployment.unnoticed`: an event does not notice what has been forgotten.
* `Deployment.prune_unnoticed`: a run does not notice that pruning is inserted.
-/

namespace NodeLending

open Reservation (Stage)

namespace Queue

variable {q q' : Queue} {id : ReservationId}

/-! ### Forgetting -/

/-- The second queue is the first one without some of the completed reservations. -/
structure Forgets (q q' : Queue) : Prop where
  /-- The next number is the same. -/
  next : q'.next = q.next
  /-- What is missing is completed. -/
  find? : ∀ id, q'.entries.find? id = q.entries.find? id ∨
    q'.entries.find? id = none ∧ ∃ r n, q.entries.find? id = some r ∧ r.stage = .completed n

namespace Forgets

theorem refl (q : Queue) : q.Forgets q := ⟨rfl, fun _ => .inl rfl⟩

theorem stage? (h : q.Forgets q') (id : ReservationId) : q'.stage? id = q.stage? id ∨
    q'.stage? id = none ∧ ∃ n, q.stage? id = some (.completed n) := by
  rw [Queue.stage?, Queue.stage?]
  rcases h.find? id with heq | ⟨hnone, r, n, hr, hn⟩
  · exact .inl (by rw [heq])
  · exact .inr ⟨by rw [hnone, Option.map_none], n, by rw [hr, Option.map_some, hn]⟩

/-- A reservation that waits or runs is still there. -/
theorem find?_of_isLive (h : q.Forgets q') {r : Reservation} (hr : q.entries.find? id = some r)
    (hlive : r.stage.isLive = true) : q'.entries.find? id = some r := by
  rcases h.find? id with heq | ⟨-, r', n, hr', hn⟩
  · rw [heq, hr]
  · cases hr.symm.trans hr'
    rw [hn] at hlive
    cases hlive

theorem isLive_eq (h : q.Forgets q') (id : ReservationId) : q'.isLive id = q.isLive id := by
  rw [Queue.isLive, Queue.isLive]
  rcases h.stage? id with heq | ⟨hnone, n, hn⟩
  · rw [heq]
  · rw [hnone, hn]
    rfl

/-- The same reservations wait, in the same order. -/
theorem pending_eq (h : q.Forgets q') : q'.pending = q.pending := by
  refine Keyed.eq_of_mem_iff (q'.entries.ascending.filter _) (q.entries.ascending.filter _) ?_
  rintro ⟨id, r⟩
  have hiff : q'.entries.find? id = some r ∧ r.stage = .pending ↔
      q.entries.find? id = some r ∧ r.stage = .pending := by
    refine and_congr_left fun hr => ?_
    have hlive : r.stage.isLive = true := by rw [hr]; rfl
    rcases h.find? id with heq | ⟨hnone, r', n, hr', hn⟩
    · rw [heq]
    · rw [hnone, hr']
      refine iff_of_false nofun ?_
      rintro ⟨⟩
      rw [hn] at hr
      cases hr
  exact mem_pending.trans (hiff.trans mem_pending.symm)

/-! ### What keeps it up -/

/-- More may be forgotten. -/
theorem prune (h : q.Forgets q') : q.Forgets q'.prune := by
  refine ⟨h.next, fun id => ?_⟩
  rw [Queue.prune, Keyed.find?_filter]
  rcases h.find? id with heq | ⟨hnone, hcompleted⟩
  · rw [heq]
    cases q.entries.find? id with
    | none => exact .inl rfl
    | some r => cases hr : r.stage <;> simp [hr, Stage.isLive]
  · rw [hnone]
    exact .inr ⟨rfl, hcompleted⟩

/-- What is forgotten of the one may be forgotten of the other. -/
theorem prune_prune (h : q.Forgets q') : q.prune.Forgets q'.prune := by
  refine ⟨h.next, fun id => .inl ?_⟩
  rw [Queue.prune, Queue.prune, Keyed.find?_filter, Keyed.find?_filter]
  rcases h.find? id with heq | ⟨hnone, r, n, hr, hn⟩
  · rw [heq]
  · have hdead : r.stage.isLive = false := by rw [hn]; rfl
    rw [hnone, hr, Option.filter_some, hdead]
    rfl

theorem enqueue (h : q.Forgets q') (owner : Party) (label : Label.Expr) :
    (q.enqueue owner label).2.Forgets (q'.enqueue owner label).2 := by
  refine ⟨?_, fun id => ?_⟩
  · change q'.next + 1 = q.next + 1
    rw [h.next]
  · rw [Queue.enqueue, Queue.enqueue, Keyed.find?_insert, Keyed.find?_insert, h.next]
    split
    · exact .inl rfl
    · exact h.find? id

/-- A reservation that both have is put at a stage. -/
theorem setStage (h : q.Forgets q') (hid : q'.entries.find? id = q.entries.find? id)
    (stage : Stage) : (q.setStage id stage).Forgets (q'.setStage id stage) := by
  refine ⟨?_, fun j => ?_⟩
  · rw [next_setStage, next_setStage, h.next]
  · rw [find?_setStage, find?_setStage]
    split
    · rw [hid]
      exact .inl rfl
    · exact h.find? j

/-- Bindings are made of reservations that wait, which both have. -/
theorem seating (h : q.Forgets q') {inventory : Inventory} {e e' : LocalEngine} {bs : List Binding}
    {q₁ : Queue} (hs : Seating inventory q e bs q₁ e') : q₁.Forgets (bs.foldl Queue.bind q') := by
  induction hs generalizing q' with
  | nil => exact h
  | cons hr hp _ _ _ _ ih =>
    have hlive : q'.entries.find? _ = some _ := h.find?_of_isLive hr (by rw [hp]; rfl)
    exact ih (h.setStage (hlive.trans hr.symm) _)

end Forgets

/-! ### Cycles and ends -/

/-- A cycle does not notice what has been forgotten. -/
theorem Forgets.maintain (h : q.Forgets q') (inventory : Inventory) (m : Machinery) :
    let x := (q.maintain inventory).run Machinery.answer m
    let x' := (q'.maintain inventory).run Machinery.answer m
    x'.1.1 = x.1.1 ∧ x'.2 = x.2 ∧ x.1.2.Forgets x'.1.2 := by
  intro x x'
  have hseating : Seating inventory q m.engine x.1.1 x.1.2 x.2.engine :=
    ((q.ensures_maintain inventory m.engine).run (v := Machinery.engine) (I := fun _ => True)
      (fun c m _ => ⟨trivial, m.reacts c⟩) trivial).2
  have hrun : x' = ((x.1.1, x.1.1.foldl Queue.bind q'), x.2) := by
    simp only [x, x', Queue.maintain, Dialogue.run_bind, h.pending_eq]
    rfl
  rw [hrun]
  exact ⟨rfl, rfl, h.seating hseating⟩

/-- The end of a reservation does not notice what has been forgotten, unless it is that of a
reservation that has been forgotten. -/
theorem Forgets.complete (h : q.Forgets q') (id : ReservationId) (m : Machinery) :
    let x := (q.complete id).run Machinery.answer m
    let x' := (q'.complete id).run Machinery.answer m
    (x'.1.1 = x.1.1 ∨ (∃ n, q.stage? id = some (.completed n)) ∧
      x.1.1 = .error (.notBound id) ∧ x'.1.1 = .error (.unknownReservation id)) ∧
    x'.2 = x.2 ∧ x.1.2.Forgets x'.1.2 := by
  rcases h.find? id with heq | ⟨hnone, r, n, hr, hn⟩
  · cases hr : q.entries.find? id with
    | none =>
      simp only [Queue.complete, heq, hr]
      exact ⟨.inl rfl, rfl, h⟩
    | some r =>
      cases hstage : r.stage with
      | pending | completed =>
        simp only [Queue.complete, heq, hr, hstage]
        exact ⟨.inl rfl, rfl, h⟩
      | bound n =>
        -- The engine is asked the same and answers the same.
        simp only [Queue.complete, heq, hr, hstage, Engine.complete, Dialogue.run_bind,
          Dialogue.run_ask, Dialogue.run_done]
        cases (m.answer (.complete ⟨id, n, r.owner.name⟩)).1 with
        | ok b => exact ⟨.inl rfl, rfl, h.setStage heq _⟩
        | error err => exact ⟨.inl rfl, rfl, h⟩
  · simp only [Queue.complete, hnone, hr, hn]
    refine ⟨.inr ⟨⟨n, ?_⟩, rfl, rfl⟩, rfl, h⟩
    rw [Queue.stage?, hr, Option.map_some, hn]

end Queue

/-! ### Runs with pruning inserted -/

namespace Event

/-- Whether completed reservations are forgotten by the event alone. -/
def isPrune : Event → Bool
  | prune => true
  | _ => false

/-- Pruning is inserted into a run at arbitrary points. -/
inductive Interspersed : List Event → List Event → Prop
  | nil : Interspersed [] []
  | event (e : Event) {events events' : List Event} (h : Interspersed events events') :
      Interspersed (e :: events) (e :: events')
  | prune {events events' : List Event} (h : Interspersed events events') :
      Interspersed events (.prune :: events')

end Event

namespace Api

variable {o : Orchestrator} {q : Queue}

theorem runStatus_forgets (h : o.queue.Forgets q) (a : Accepted RunStatusRequest) :
    runStatus { o with queue := q } a = runStatus o a := by
  rw [runStatus, runStatus, h.isLive_eq]

theorem respond_forgets (h : o.queue.Forgets q) (now : Moment) (r : Request) :
    respond { o with queue := q } now r = respond o now r := by
  have hprobe : ∀ p, probe { o with queue := q } now p = probe o now p := by
    intro p
    have hbody : poolBody { o with queue := q } = poolBody o := by
      rw [poolBody, poolBody, h.pending_eq]
      rfl
    cases p with
    | readiness => rw [probe, probe, hbody]
    | _ => rfl
  have hendpoint : ∀ segment e,
      respondAt { o with queue := q } now segment r e = respondAt o now segment r e := by
    intro segment e
    cases e with
    | runStatus =>
      simp only [respondAt, runStatus_forgets h]
      rfl
    | _ => rfl
  rw [respond, respond]
  split
  · rfl
  · rw [hprobe]
  · rw [hendpoint]

end Api

namespace Deployment

open Event (Interspersed)

variable {d : Deployment} {q : Queue}

/-! ### Events -/

theorem aside_queue (queue : Queue) : Orchestrator.Aside fun o => { o with queue } :=
  ⟨fun _ => rfl, fun _ => rfl, fun _ _ => rfl⟩

/-- Passes leave the reservations alone. -/
theorem queue_step_of_isPass {e : Event} (he : e.IsPass) : (d.step e).2.queue = d.queue := by
  have hsame : (d.withQueue d.queue).step e = _ := step_amended (aside_queue d.queue) d he
  exact congrArg (fun x => x.2.queue) hsame

/-- What the worker does is a cycle over the reservations with pruning behind it. -/
theorem cycle_eq (d : Deployment) :
    d.cycle = if d.pool.activated then d.after [.maintain, .prune] else d := rfl

/-- An event goes unnoticed that happens where something has been forgotten. -/
structure Unnoticed (d : Deployment) (q : Queue) (e : Event) : Prop where
  /-- The result is the same, except that of pruning, and that of the end of a reservation. -/
  result : e.isPrune = false → (∀ id, e ≠ .complete id) →
    ((d.withQueue q).step e).1 = (d.step e).1
  /-- The state is the same, except for what has been forgotten. -/
  state : ∃ q', (d.step e).2.queue.Forgets q' ∧
    ((d.withQueue q).step e).2 = (d.step e).2.withQueue q'

theorem Unnoticed.of_eq {e : Event} {q' : Queue} (h : (d.step e).2.queue.Forgets q')
    (hstep : (d.withQueue q).step e = ((d.step e).1, (d.step e).2.withQueue q')) :
    d.Unnoticed q e where
  result _ _ := by rw [hstep]
  state := ⟨q', h, by rw [hstep]⟩

theorem unnoticed_maintain (h : d.queue.Forgets q) : d.Unnoticed q .maintain := by
  obtain ⟨hbindings, hmachinery, hforgets⟩ := h.maintain d.inventory d.machinery
  refine .of_eq hforgets (Prod.ext hbindings ?_)
  exact congrArg (fun machinery => (d.withMachinery machinery).withQueue _) hmachinery

theorem unnoticed_complete (h : d.queue.Forgets q) (id : ReservationId) :
    d.Unnoticed q (.complete id) := by
  obtain ⟨-, hmachinery, hforgets⟩ := h.complete id d.machinery
  refine ⟨fun _ hne => absurd rfl (hne id), _, hforgets, ?_⟩
  exact congrArg (fun machinery => (d.withMachinery machinery).withQueue _) hmachinery

theorem unnoticed_cycle (h : d.queue.Forgets q) : d.Unnoticed q .cycle := by
  refine ⟨fun _ _ => rfl, ?_⟩
  change ∃ q', d.cycle.queue.Forgets q' ∧ (d.withQueue q).cycle = d.cycle.withQueue q'
  rw [cycle_eq, cycle_eq]
  change ∃ q', _ ∧ (if d.pool.activated then _ else _) = _
  split
  · obtain ⟨q', hforgets, hstep⟩ := (unnoticed_maintain h).state
    refine ⟨q'.prune, hforgets.prune_prune, ?_⟩
    change (((d.withQueue q).step .maintain).2.step .prune).2 = _
    rw [hstep]
    rfl
  · exact ⟨q, h, rfl⟩

theorem unnoticed_request (h : d.queue.Forgets q) (r : Api.Request) (now : Moment) :
    d.Unnoticed q (.request r now) := by
  have hstep := step_request d r now
  have hstep' := step_request (d.withQueue q) r now
  rw [show (d.withQueue q).orchestrator = { d.orchestrator with queue := q } from rfl,
    Api.respond_forgets h] at hstep'
  generalize Api.respond d.orchestrator now r = x at hstep hstep'
  refine ⟨fun _ _ => ?_, q, ?_, ?_⟩
  · rw [hstep, hstep']
  · rw [hstep]
    exact h
  · rw [hstep, hstep']
    rfl

/-- No event notices what has been forgotten. -/
theorem unnoticed (h : d.queue.Forgets q) (e : Event) : d.Unnoticed q e := by
  have hpass : e.IsPass → d.Unnoticed q e := fun he =>
    .of_eq ((queue_step_of_isPass he).symm ▸ h) (step_amended (aside_queue q) d he)
  cases e with
  | run | tryRun | start | deliver => exact hpass trivial
  | enqueue owner label =>
    refine .of_eq (h.enqueue owner label) (Prod.ext ?_ rfl)
    exact congrArg ReservationId.mk h.next
  | maintain => exact unnoticed_maintain h
  | cycle => exact unnoticed_cycle h
  | complete id => exact unnoticed_complete h id
  | prune => exact ⟨nofun, _, h.prune_prune, rfl⟩
  | request r now => exact unnoticed_request h r now
  | _ => exact .of_eq h rfl

/-! ### What can be told apart -/

/-- Nobody can tell the second deployment from the first one, except who asks for a reservation by
its number that is completed in the first one. -/
structure LooksLike (d d' : Deployment) : Prop where
  /-- All but the reservations is the same, in particular the engine and the pool. -/
  rest : d' = d.withQueue d'.queue
  /-- The same reservations wait, in the same order. -/
  pending : d'.queue.pending = d.queue.pending
  /-- The same reservations are live. -/
  isLive : ∀ id, d'.queue.isLive id = d.queue.isLive id
  /-- Parties are told the same about them. -/
  runStatus : ∀ a, Api.runStatus d'.orchestrator a = Api.runStatus d.orchestrator a
  /-- Cycles make the same bindings, whatever view they work on. -/
  maintained : ∀ view, (d'.maintained view).1.1 = (d.maintained view).1.1
  /-- New demand gets the same number. -/
  enqueue : ∀ owner label, (d'.enqueue owner label).1 = (d.enqueue owner label).1
  /-- A reservation is at the same stage, or it is completed and unknown. -/
  stage? : ∀ id, d'.queue.stage? id = d.queue.stage? id ∨
    d'.queue.stage? id = none ∧ ∃ n, d.queue.stage? id = some (.completed n)
  /-- The end of a reservation has the same result, or it is completed and unknown. -/
  complete : ∀ id, (d'.complete id).1 = (d.complete id).1 ∨
    (∃ n, d.queue.stage? id = some (.completed n)) ∧
      (d.complete id).1 = .error (.notBound id) ∧
      (d'.complete id).1 = .error (.unknownReservation id)
  /-- All other events have the same result, pruning apart. -/
  step : ∀ e : Event, e.isPrune = false → (∀ id, e ≠ .complete id) →
    (d'.step e).1 = (d.step e).1

theorem looksLike_withQueue (h : d.queue.Forgets q) : d.LooksLike (d.withQueue q) where
  rest := rfl
  pending := h.pending_eq
  isLive := h.isLive_eq
  runStatus := Api.runStatus_forgets h
  maintained view := (h.maintain view.inventory d.machinery).1
  enqueue _ _ := congrArg ReservationId.mk h.next
  stage? := h.stage?
  complete id := (h.complete id d.machinery).1
  step e := (unnoticed h e).result

/-! ### Runs -/

/-- The states of a run, each with the event that happens then. -/
def moments (d : Deployment) : List Event → List (Deployment × Event)
  | [] => []
  | e :: events => (d, e) :: (d.step e).2.moments events

theorem moments_forgets {events events' : List Event} (hevents : Interspersed events events')
    (h : d.queue.Forgets q) :
    List.Forall₂ (fun x x' => x.2 = x'.2 ∧ x.1.LooksLike x'.1)
      ((d.moments events).filter fun x => !x.2.isPrune)
      (((d.withQueue q).moments events').filter fun x => !x.2.isPrune) := by
  induction hevents generalizing d q with
  | nil => exact .nil
  | event e hevents ih =>
    obtain ⟨-, q', hforgets, hstep⟩ := unnoticed h e
    have hrest := ih hforgets
    rw [← hstep] at hrest
    rw [moments, moments]
    cases he : e.isPrune with
    | true =>
      rw [List.filter_cons_of_neg (by simp [he]), List.filter_cons_of_neg (by simp [he])]
      exact hrest
    | false =>
      rw [List.filter_cons_of_pos (by simp [he]), List.filter_cons_of_pos (by simp [he])]
      exact .cons ⟨rfl, looksLike_withQueue h⟩ hrest
  | prune hevents ih =>
    rw [moments, List.filter_cons_of_neg (by simp [Event.isPrune])]
    exact ih h.prune

theorem after_forgets {events events' : List Event} (hevents : Interspersed events events')
    (h : d.queue.Forgets q) : (d.after events).LooksLike ((d.withQueue q).after events') := by
  induction hevents generalizing d q with
  | nil => exact looksLike_withQueue h
  | event e hevents ih =>
    obtain ⟨-, q', hforgets, hstep⟩ := unnoticed h e
    change (d.step e).2.after _ |>.LooksLike (((d.withQueue q).step e).2.after _)
    rw [hstep]
    exact ih hforgets
  | prune hevents ih => exact ih h.prune

/-- **Pruning goes unnoticed.** Let pruning be inserted into a run at arbitrary points. The two runs
go through the same events otherwise, and nobody can tell the states apart in which they happen, nor
those that the runs end in, except who asks for a completed reservation by its number. -/
theorem prune_unnoticed (d : Deployment) {events events' : List Event}
    (h : Interspersed events events') :
    List.Forall₂ (fun x x' => x.2 = x'.2 ∧ x.1.LooksLike x'.1)
      ((d.moments events).filter fun x => !x.2.isPrune)
      ((d.moments events').filter fun x => !x.2.isPrune) ∧
    (d.after events).LooksLike (d.after events') :=
  ⟨moments_forgets h (.refl d.queue), after_forgets h (.refl d.queue)⟩

/-- A reservation has ended and is forgotten while another one waits. -/
theorem pending_of_other_pruned :
    let d := (new none .empty).acts lending
    let u := d.after [.complete ⟨1⟩]
    let p := d.after [.complete ⟨1⟩, .prune]
    u.queue.stage? ⟨1⟩ = some (.completed Sample.node) ∧ p.queue.stage? ⟨1⟩ = none ∧
      u.queue.stage? ⟨2⟩ = some .pending ∧ p.queue.pending = u.queue.pending := by
  intro d u p
  have hlooks : u.LooksLike p := (prune_unnoticed d (.event _ (.prune .nil))).2
  exact ⟨by decide, by decide, by decide, hlooks.pending⟩

end Deployment

end NodeLending
