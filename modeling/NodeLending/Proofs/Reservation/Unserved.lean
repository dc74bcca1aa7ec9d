import Mathlib.Data.List.Infix
import NodeLending.Proofs.Client.Agreement
import NodeLending.Proofs.Reservation.Lifecycle

/-!
# Demand that no node serves

A reservation that no published node in service may be lent for waits, and nothing makes it go away:
no cycle binds it, its end is refused, and pruning leaves it alone. It does not matter why no node
will do. A negated expression may be refused because of a label that a node has, and the unspecified
expression accepts no node at all.

Numbers have 64 bits, so a number can be given out again after 2 ^ 64 further reservations. Until
then it stands for the same reservation.

## Main definitions

* `Queue.Waits`: a reservation waits, with an owner and a label expression.
* `Deployment.numbers`: the numbers that events give out.

## Main results

* `Queue.Waits.step`: no event disturbs a reservation that no node serves.
* `Deployment.lt_of_mem_numbers`: the numbers that are given out, counted from the next one.
* `Deployment.unserved`: demand that no node serves stays in the queue.
-/

namespace NodeLending

/-- An inventory has no node to lend for an expression that accepts none of its nodes in
service. -/
theorem Inventory.candidates_eq_nil {inventory : Inventory} {label : Label.Expr}
    (h : ∀ name node, inventory.find? name = some node → node.isActive = true →
      label.accepts node.labels = false) : inventory.candidates label = [] := by
  rw [List.eq_nil_iff_forall_not_mem]
  intro n hn
  obtain ⟨name, node, hnode, hserves, -⟩ := mem_candidates.mp hn
  obtain ⟨hactive, haccepts⟩ := (Bool.and_eq_true _ _).mp hserves
  rw [h name node hnode hactive] at haccepts
  cases haccepts

/-- Nothing is accepted by an expression that has not been given. -/
theorem Label.Expr.accepts_of_not_isSpecified {label : Label.Expr} (h : ¬label.isSpecified = true)
    (labels : List String) : label.accepts labels = false := by
  cases label with
  | unspecified => rfl
  | _ => exact absurd rfl h

namespace Queue

variable {q q' : Queue} {e e' : LocalEngine} {id j : ReservationId} {owner : Party}
  {label : Label.Expr}

/-- A reservation waits, with an owner and a label expression. -/
def Waits (q : Queue) (id : ReservationId) (owner : Party) (label : Label.Expr) : Prop :=
  q.entries.find? id = some ⟨owner, label, .pending⟩

namespace Waits

/-- New demand waits. -/
theorem of_enqueue (q : Queue) (owner : Party) (label : Label.Expr) :
    (q.enqueue owner label).2.Waits ⟨q.next⟩ owner label := by
  rw [Waits, Queue.enqueue, Keyed.find?_insert, if_pos rfl]

theorem stage?_eq (h : q.Waits id owner label) : q.stage? id = some .pending := by
  rw [stage?, h, Option.map_some]

theorem mem_pending (h : q.Waits id owner label) : (id, ⟨owner, label, .pending⟩) ∈ q.pending :=
  Queue.mem_pending.mpr ⟨h, rfl⟩

theorem isLive (h : q.Waits id owner label) : q.isLive id = true := by
  rw [Queue.isLive, h.stage?_eq]
  rfl

/-- Changes of other reservations do not matter. -/
theorem setStage (h : q.Waits id owner label) (hj : id ≠ j) (stage : Reservation.Stage) :
    (q.setStage j stage).Waits id owner label := by
  rw [Waits, find?_setStage, if_neg hj]
  exact h

/-- Other demand does not matter. -/
theorem enqueue (h : q.Waits id owner label) (hnew : id ≠ ⟨q.next⟩) (owner' : Party)
    (label' : Label.Expr) : (q.enqueue owner' label').2.Waits id owner label := by
  rw [Waits, Queue.enqueue, Keyed.find?_insert, if_neg hnew]
  exact h

theorem prune (h : q.Waits id owner label) : q.prune.Waits id owner label := by
  rw [Waits, Queue.prune, Keyed.find?_filter, h]
  rfl

/-- A cycle that has no node to lend for the reservation leaves it waiting. -/
theorem seating {inventory : Inventory} {bs : List Binding} (h : q.Waits id owner label)
    (hnone : inventory.candidates label = []) (hs : Seating inventory q e bs q' e') :
    q'.Waits id owner label ∧ ∀ b ∈ bs, b.reservation ≠ id := by
  induction hs with
  | nil => exact ⟨h, nofun⟩
  | @cons q _ _ _ _ j r _ _ hr _ hc _ _ _ ih =>
    -- What is bound has a node that may be lent for it.
    have hne : id ≠ j := by
      rintro rfl
      obtain rfl := Option.some.inj (h.symm.trans hr)
      rw [hnone] at hc
      cases hc
    obtain ⟨hlast, hothers⟩ := ih (h.setStage hne _)
    exact ⟨hlast, List.forall_mem_cons.mpr ⟨Ne.symm hne, hothers⟩⟩

/-- Only what runs can be ended. -/
theorem release {b : Binding} (h : q.Waits id owner label) (hs : Release q e j b q' e') :
    q'.Waits id owner label := by
  cases hs with
  | @intro r _ _ hr hb _ _ =>
    refine h.setStage ?_ _
    rintro rfl
    obtain rfl := Option.some.inj (h.symm.trans hr)
    cases hb

/-- Acts that neither bind nor add reservations leave it waiting. -/
theorem act {d : Deployment} (h : d.queue.Waits id owner label) {a : Act}
    (hcycle : a.isCycle = false) (hadds : a.isEnqueue = false) :
    (d.act a).queue.Waits id owner label := by
  cases a with
  | maintain | maintainOver => cases hcycle
  | enqueue => cases hadds
  | complete j =>
    change (d.completed j).1.2.Waits id owner label
    rcases d.release_completed j with ⟨b, -, hrel⟩ | ⟨-, hq, -⟩
    · exact h.release hrel
    · rwa [hq]
  | prune => exact h.prune
  | apply | giveUp | arrange | reset | setFailing | setFault | call => exact h

theorem maintain {d : Deployment} (h : d.queue.Waits id owner label)
    (hnone : d.inventory.candidates label = []) :
    d.maintain.2.queue.Waits id owner label ∧ ∀ b ∈ d.maintain.1, b.reservation ≠ id :=
  h.seating hnone (d.seating_maintained d.pool.view)

/-- **No event disturbs it.** A reservation that no node serves waits after every event that does
not give out its number again. -/
theorem step {d : Deployment} (h : d.queue.Waits id owner label)
    (hnone : d.inventory.candidates label = []) {e : Event}
    (hnew : ∀ owner' label', e = .enqueue owner' label' → id ≠ ⟨d.queue.next⟩) :
    (d.step e).2.queue.Waits id owner label := by
  have hparts : (∀ a : Act, a.PartOf e → a.isCycle = false ∧ a.isEnqueue = false) →
      (d.step e).2.queue.Waits id owner label := fun hpart =>
    (Deployment.leads_step d e).invariant (I := fun d => d.queue.Waits id owner label)
      (fun a _ ha hd => hd.act (hpart a ha).1 (hpart a ha).2) h
  cases e with
  | maintain => exact (h.maintain hnone).1
  | cycle =>
    change d.cycle.queue.Waits id owner label
    rw [Deployment.cycle]
    split
    · exact (h.maintain hnone).1.prune
    · exact h
  | enqueue owner' label' => exact h.enqueue (hnew owner' label' rfl) owner' label'
  | _ => exact hparts fun a ha => by cases ha <;> exact ⟨rfl, rfl⟩

end Waits

end Queue

/-! ### Numbers -/

/-- Whether the event adds demand. -/
def Event.isEnqueue : Event → Bool
  | enqueue _ _ => true
  | _ => false

namespace Deployment

variable {d : Deployment}

/-- The number that an event gives out. -/
def number? (d : Deployment) : Event → Option ReservationId
  | .enqueue owner label => some (d.enqueue owner label).1
  | _ => none

/-- The numbers that events give out. -/
def numbers (d : Deployment) : List Event → List ReservationId
  | [] => []
  | e :: events => (d.number? e).toList ++ (d.step e).2.numbers events

/-- Only new demand takes a number. -/
theorem next_step {e : Event} (he : e.isEnqueue = false) : (d.step e).2.queue.next = d.queue.next :=
  (leads_step d e).invariant (I := fun d' => d'.queue.next = d.queue.next)
    (fun a d' ha hd' => queue_act (I := fun q => q.next = d.queue.next)
      (fun q id stage hq => (q.next_setStage id stage).trans hq) (fun _ hq => hq) hd' (by
        cases ha with
        | enqueue => cases he
        | _ => rfl)) rfl

/-- The numbers that are given out, counted from the next one. -/
theorem lt_of_mem_numbers {events : List Event} {id : ReservationId} (h : id ∈ d.numbers events) :
    ∃ k < events.countP Event.isEnqueue,
      id.value.toNat = (d.queue.next.toNat + k) % 2 ^ 64 := by
  induction events generalizing d with
  | nil => cases h
  | cons e events ih =>
    rw [numbers] at h
    cases he : e.isEnqueue with
    | true =>
      cases e with
      | enqueue owner label =>
        rw [List.countP_cons_of_pos (by rfl)]
        rcases List.mem_append.mp h with h | h
        · obtain rfl := Option.some.inj (Option.mem_toList.mp h)
          exact ⟨0, Nat.succ_pos _, (Nat.mod_eq_of_lt d.queue.next.toNat_lt).symm⟩
        · obtain ⟨k, hk, hid⟩ := ih h
          have hnext : (d.enqueue owner label).2.queue.next.toNat =
              (d.queue.next.toNat + 1) % 2 ^ 64 := UInt64.toNat_add _ _
          refine ⟨k + 1, Nat.succ_lt_succ hk, hid.trans ?_⟩
          change ((d.enqueue owner label).2.queue.next.toNat + k) % 2 ^ 64 = _
          rw [hnext]
          omega
      | _ => cases he
    | false =>
      have hnone : d.number? e = none := by
        cases e with
        | enqueue => cases he
        | _ => rfl
      rw [hnone, Option.toList_none, List.nil_append] at h
      obtain ⟨k, hk, hid⟩ := ih h
      rw [next_step he] at hid
      rw [List.countP_cons_of_neg (by simp [he])]
      exact ⟨k, hk, hid⟩

/-- A number is not given out again before 2 ^ 64 further reservations have been added. -/
theorem not_mem_numbers (owner : Party) (label : Label.Expr) {events : List Event}
    (hk : events.countP Event.isEnqueue < 2 ^ 64) :
    (d.enqueue owner label).1 ∉ (d.enqueue owner label).2.numbers events := by
  intro hmem
  obtain ⟨k, hlt, hid⟩ := lt_of_mem_numbers hmem
  have hnext : (d.enqueue owner label).2.queue.next.toNat =
      (d.queue.next.toNat + 1) % 2 ^ 64 := UInt64.toNat_add _ _
  have hbound := d.queue.next.toNat_lt
  change d.queue.next.toNat = _ at hid
  omega

end Deployment

/-- A reservation that no node serves waits after every run that does not give out its number
again. -/
theorem Queue.Waits.after {d : Deployment} {id : ReservationId} {owner : Party} {label : Label.Expr}
    {events : List Event} (h : d.queue.Waits id owner label)
    (hnone : ∀ before, before <+: events → (d.after before).inventory.candidates label = [])
    (hnew : id ∉ d.numbers events) : (d.after events).queue.Waits id owner label := by
  induction events generalizing d with
  | nil => exact h
  | cons e events ih =>
    rw [Deployment.numbers, List.mem_append, not_or] at hnew
    obtain ⟨hfirst, hrest⟩ := hnew
    refine ih (h.step (hnone [] (List.nil_prefix)) ?_) (fun before hbefore => ?_) hrest
    · rintro owner' label' rfl rfl
      exact hfirst (Option.mem_toList.mpr rfl)
    · exact hnone (e :: before) (List.cons_prefix_cons.mpr ⟨rfl, hbefore⟩)

namespace Deployment

open Api (Route)

/-- A party that asks for a reservation that waits or runs is told that it is there. -/
theorem step_runStatus {d : Deployment} {id : ReservationId} (h : d.queue.isLive id = true)
    {r : Api.Request} {segment : String}
    (hroute : Route.of? r.target = some (.endpoint segment .runStatus))
    (hmethod : r.method = "POST") {a : Api.Accepted RunStatusRequest}
    (ha : Api.accept RunStatusRequest d.orchestrator segment r = .ok a) (hid : a.message.run = id)
    (now : Moment) :
    d.step (.request r now) = (.json 200 (Json.encode (RunStatusResponse.mk .found)), d) := by
  have hlive : d.orchestrator.queue.isLive id = true := h
  rw [step_of_accept (e := .runStatus) now hroute hmethod ha, Api.handle_runStatus hid, hlive]
  rfl

/-- **Demand that no node serves stays.** Let a reservation be added, and let no view that is
published then or later have a node in service whose labels, with its name, satisfy its expression.
An expression that has not been given needs no such assumption. Then the reservation waits with its
owner and its expression, whatever else happens: it is listed, it counts as live, parties that ask
for it are told that it is there, and no cycle binds it. This is said of the reservation as long as
its number stands for it, which it does at least until 2 ^ 64 further ones have been added. -/
theorem unserved (d : Deployment) (owner : Party) (label : Label.Expr) (events : List Event)
    (hunserved : label.isSpecified = true → ∀ before, before <+: events → ∀ name node,
      ((d.enqueue owner label).2.after before).inventory.find? name = some node →
      node.isActive = true → label.accepts node.labels = false) :
    let id := (d.enqueue owner label).1
    let d₁ := (d.enqueue owner label).2
    let d₂ := d₁.after events
    (events.countP Event.isEnqueue < 2 ^ 64 → id ∉ d₁.numbers events) ∧
    (id ∉ d₁.numbers events →
      d₂.queue.stage? id = some .pending ∧
      (id, ⟨owner, label, .pending⟩) ∈ d₂.queue.pending ∧
      d₂.queue.isLive id = true ∧
      (∀ r now segment a, Route.of? r.target = some (.endpoint segment .runStatus) →
        r.method = "POST" → Api.accept RunStatusRequest d₂.orchestrator segment r = .ok a →
        a.message.run = id →
        d₂.step (.request r now) = (.json 200 (Json.encode (RunStatusResponse.mk .found)), d₂)) ∧
      ∀ b ∈ d₂.maintain.1, b.reservation ≠ id) := by
  intro id d₁ d₂
  have hnone : ∀ before, before <+: events → (d₁.after before).inventory.candidates label = [] := by
    intro before hbefore
    refine Inventory.candidates_eq_nil fun name node hnode hactive => ?_
    by_cases hgiven : label.isSpecified = true
    · exact hunserved hgiven before hbefore name node hnode hactive
    · exact Label.Expr.accepts_of_not_isSpecified hgiven node.labels
  refine ⟨not_mem_numbers owner label, fun hnew => ?_⟩
  have hwaits : d₂.queue.Waits id owner label :=
    Queue.Waits.after (.of_enqueue d.queue owner label) hnone hnew
  refine ⟨hwaits.stage?_eq, hwaits.mem_pending, hwaits.isLive, ?_, ?_⟩
  · intro r now segment a hroute hmethod ha hid
    exact step_runStatus hwaits.isLive hroute hmethod ha hid now
  · exact (hwaits.maintain (hnone events (List.prefix_refl events))).2

/-- A pool with one node in service. -/
def tended : Deployment := (new (some "r") .empty).withPool (Pool.empty.install
  ⟨∅, ∅, .ofList [(Sample.node, Sample.definition)]⟩ Sample.view.inventory)

/-- The only node is not the one that is asked for, and then there is none. -/
theorem isLive_of_negated_name :
    ((tended.enqueue Sample.party (.not (.atom "n1"))).2.after
      [.maintain, .cycle, .complete ⟨1⟩, .reset]).queue.isLive ⟨1⟩ = true := by
  have hlife := unserved tended Sample.party (.not (.atom "n1"))
    [.maintain, .cycle, .complete ⟨1⟩, .reset] fun _ before hbefore name node hnode _ => ?_
  · exact (hlife.2 (hlife.1 (by decide))).2.2.1
  · have hview : ((tended.enqueue Sample.party (.not (.atom "n1"))).2.after before).inventory =
        Sample.view.inventory ∨
        ((tended.enqueue Sample.party (.not (.atom "n1"))).2.after before).inventory = ∅ := by
      rw [← List.mem_inits] at hbefore
      simp only [List.inits, List.map_cons, List.map_nil, List.mem_cons, List.not_mem_nil,
        or_false] at hbefore
      rcases hbefore with rfl | rfl | rfl | rfl | rfl
      · exact .inl rfl
      · exact .inl rfl
      · exact .inl rfl
      · exact .inl rfl
      · exact .inr rfl
    rcases hview with h | h
    · rw [h, ← Keyed.mem_entries_iff] at hnode
      have hentries : Sample.view.inventory.entries = [(Sample.node, _)] := rfl
      rw [hentries, List.mem_singleton] at hnode
      cases hnode
      decide
    · rw [h] at hnode
      cases hnode

end Deployment

end NodeLending
