import NodeLending.Proofs.Deployment.Act

/-!
# Who uses which node

The queue says which reservation is bound to which node, and the engine says which node is used by
which reservation. The two are kept apart and change at different times, and yet they always say the
same, as long as nobody starts or ends reservations on the engine past the queue: a cycle and the
end of a reservation change both sides at once, and all other calls leave those nodes alone that are
in use. A cycle need not work on the published view for that, and the engine may have any faults.

A node in use moreover stays what it is, whatever passes make of the repository meanwhile.

## Main definitions

* `Queue.Agrees`: the queue and the engine say the same.
* `Act.Brokered`: the act does not start or end a reservation on the engine past the queue.

## Main results

* `Deployment.stage?_bound_iff_occupant?`: queue and engine agree after every sequence of brokered
  acts.
* `Deployment.find?_after_of_occupied`: a node in use is not changed before its reservation ends.
-/

namespace NodeLending

open Reservation (Stage)

/-- The queue and the engine say the same of who uses which node. -/
def Queue.Agrees (q : Queue) (e : LocalEngine) : Prop :=
  ∀ r n, q.stage? r = some (.bound n) ↔ e.occupant? n = some r

namespace Queue.Agrees

variable {q q' : Queue} {e e' : LocalEngine} {id : ReservationId} {name : NodeName}

theorem empty : Queue.empty.Agrees LocalEngine.empty := fun r n => by
  have hnone : LocalEngine.empty.occupant? n = none := rfl
  rw [stage?_empty, hnone]
  exact ⟨nofun, nofun⟩

theorem engine (h : q.Agrees e) (he : ∀ n, e'.occupant? n = e.occupant? n) : q.Agrees e' :=
  fun r n => by rw [he, h r n]

/-- A new reservation waits, so no node is used by it. -/
theorem enqueue (h : q.Agrees e) (hnew : q.stage? ⟨q.next⟩ = none) (owner : Party)
    (label : Label.Expr) : (q.enqueue owner label).2.Agrees e := by
  intro r n
  rw [stage?_enqueue, ← h r n]
  split
  · next heq =>
    rw [heq, hnew]
    exact ⟨nofun, nofun⟩
  · exact Iff.rfl

/-- What is forgotten uses no node. -/
theorem prune (h : q.Agrees e) : q.prune.Agrees e := by
  intro r n
  rw [stage?_prune, ← h r n, Option.filter_eq_some_iff]
  exact and_iff_left_of_imp fun _ => rfl

/-- A reservation that waits takes an idle node. -/
theorem bind {node : EngineNode} (h : q.Agrees e) (hr : q.stage? id = some .pending)
    (hn : e.nodes.find? name = some node) (hidle : node.occupant = none) (owner : PartyName) :
    (q.bind ⟨id, name, owner⟩).Agrees (e.put name { node with occupant := some id }) := by
  intro r n
  rw [Queue.bind, stage?_setStage, hr, LocalEngine.occupant?_put]
  -- The node has been idle, so no reservation is bound to it, and the reservation to no node.
  have hfree : e.occupant? name = none := (LocalEngine.occupant?_of_find? hn).trans hidle
  by_cases hrid : r = id
  · subst hrid
    have hnone : e.occupant? n ≠ some r := by
      rw [ne_eq, ← h r n, hr]
      simp
    by_cases hname : n = name
    · simp [hname]
    · simp [hname, hnone, Ne.symm hname]
  · rw [if_neg hrid, h r n]
    by_cases hname : n = name
    · simp [hname, hfree, Ne.symm hrid]
    · simp [hname]

/-- A cycle changes both sides at once. -/
theorem seating {inventory : Inventory} {bs : List Binding}
    (hs : Seating inventory q e bs q' e') (h : q.Agrees e) : q'.Agrees e' := by
  induction hs with
  | nil => exact h
  | cons hr hp hc hn hidle rest ih =>
    refine ih (h.bind ?_ hn hidle _)
    rw [stage?, hr, Option.map_some, hp]

/-- The end of a reservation changes both sides at once. -/
theorem release {b : Binding} (hs : Release q e id b q' e') (h : q.Agrees e) : q'.Agrees e' := by
  obtain ⟨hr, hb, hn, ho⟩ := hs
  rename_i r name node
  have hstage : q.stage? id = some (.bound name) := by rw [stage?, hr, Option.map_some, hb]
  -- The reservation runs on this node only, and nothing else runs there.
  have hused : e.occupant? name = some id := (h id name).mp hstage
  intro s n
  rw [stage?_setStage, hstage, LocalEngine.occupant?_put]
  by_cases hsid : s = id
  · subst hsid
    have hother : n ≠ name → e.occupant? n ≠ some s := by
      intro hne ho
      rw [← h s n, hstage] at ho
      exact hne (Stage.bound.inj (Option.some.inj ho)).symm
    by_cases hname : n = name
    · simp [hname]
    · simp [hname, hother hname]
  · rw [if_neg hsid, h s n]
    by_cases hname : n = name
    · simp [hname, hused, Ne.symm hsid]
    · simp [hname]

end Queue.Agrees

/-! ### Agreement of queue and engine -/

namespace Act

/-- The act neither starts nor ends a reservation on the engine past the queue. -/
def Brokered : Act → Prop
  | call c => c.isExecution = false
  | _ => True

/-- Whether the act adds demand. -/
def isEnqueue : Act → Bool
  | enqueue _ _ => true
  | _ => false

end Act

theorem Queue.Numbered.seating {inventory : Inventory} {q q' : Queue} {e e' : LocalEngine}
    {bs : List Binding} {k : Nat} (hs : Seating inventory q e bs q' e') (h : q.Numbered k) :
    q'.Numbered k :=
  hs.keeps (I := (Numbered · k)) (fun _ id stage h => h.setStage id stage) h

theorem Queue.Numbered.release {q q' : Queue} {e e' : LocalEngine} {id : ReservationId}
    {b : Binding} {k : Nat} (hs : Release q e id b q' e') (h : q.Numbered k) : q'.Numbered k :=
  hs.keeps (I := (Numbered · k)) (fun _ id stage h => h.setStage id stage) h

namespace Deployment

/-- The queue has given out `k` numbers and agrees with the engine. -/
structure Booked (d : Deployment) (k : Nat) : Prop where
  /-- The queue has given out `k` numbers. -/
  numbered : d.queue.Numbered k
  /-- The queue and the engine say the same of who uses which node. -/
  agrees : d.queue.Agrees d.machinery.engine

namespace Booked

variable {d : Deployment} {k : Nat}

theorem new (repository : Option String) (files : FileTree) :
    (Deployment.new repository files).Booked 0 := ⟨.empty, .empty⟩

theorem maintainOver (h : d.Booked k) (view : PoolView) : (d.act (.maintainOver view)).Booked k :=
  ⟨.seating (d.seating_maintained view) h.numbered, .seating (d.seating_maintained view) h.agrees⟩

theorem complete (h : d.Booked k) (id : ReservationId) : (d.act (.complete id)).Booked k := by
  rcases d.release_completed id with ⟨b, -, hrel⟩ | ⟨-, hq, he⟩
  · exact ⟨h.numbered.release hrel, h.agrees.release hrel⟩
  · constructor
    · change (d.completed id).1.2.Numbered k
      rw [hq]
      exact h.numbered
    · change (d.completed id).1.2.Agrees (d.completed id).2.engine
      rw [hq, he]
      exact h.agrees

/-- A brokered act keeps queue and engine in agreement. -/
theorem act (h : d.Booked k) {a : Act} (ha : a.Brokered)
    (hk : k + (if a.isEnqueue then 1 else 0) < 2 ^ 64) :
    (d.act a).Booked (k + if a.isEnqueue then 1 else 0) := by
  have hsame : ∀ c e a e', c.isExecution = false → LocalEngine.Reacts c e a e' →
      d.queue.Agrees e → d.queue.Agrees e' :=
    fun c e a e' hc hr hd => hd.engine (hr.occupant?_eq hc)
  cases a with
  | apply fetched => exact ⟨h.numbered, applied_invariant hsame fetched h.agrees⟩
  | call c =>
    exact ⟨h.numbered, hsame c _ _ _ ha (d.machinery.reacts c) h.agrees⟩
  | enqueue owner label =>
    exact ⟨h.numbered.enqueue hk owner label,
      h.agrees.enqueue (h.numbered.stage?_next hk) owner label⟩
  | maintain => exact h.maintainOver d.pool.view
  | maintainOver view => exact h.maintainOver view
  | complete id => exact h.complete id
  | prune => exact ⟨h.numbered.prune, h.agrees.prune⟩
  | giveUp | arrange | reset | setFailing | setFault => exact ⟨h.numbered, h.agrees⟩

/-- Brokered acts keep queue and engine in agreement. -/
theorem acts (h : d.Booked k) {l : List Act} (hl : ∀ a ∈ l, a.Brokered)
    (hk : k + l.countP Act.isEnqueue < 2 ^ 64) :
    (d.acts l).Booked (k + l.countP Act.isEnqueue) := by
  induction l generalizing d k with
  | nil => exact h
  | cons a l ih =>
    rw [List.countP_cons, Nat.add_comm (l.countP _), ← Nat.add_assoc] at hk ⊢
    have hfirst := h.act (hl a List.mem_cons_self) (by omega)
    exact ih hfirst (fun b hb => hl b (List.mem_cons_of_mem a hb)) hk

end Booked

/-- **Queue and engine agree.** After every sequence of brokered acts in which fewer than 2 ^ 64
reservations are made, a reservation is bound to a node exactly when the engine runs it there. So no
two reservations are bound to one node, and none to a node that the engine does not have. -/
theorem stage?_bound_iff_occupant? (repository : Option String) (files : FileTree) (l : List Act)
    (hl : ∀ a ∈ l, a.Brokered) (hk : l.countP Act.isEnqueue < 2 ^ 64) :
    let d := (Deployment.new repository files).acts l
    (∀ r n, d.queue.stage? r = some (.bound n) ↔ d.machinery.engine.occupant? n = some r) ∧
    (∀ r s n, d.queue.stage? r = some (.bound n) → d.queue.stage? s = some (.bound n) → r = s) ∧
    ∀ r n, d.queue.stage? r = some (.bound n) → d.machinery.engine.nodes.contains n = true := by
  intro d
  have hagrees : d.queue.Agrees d.machinery.engine :=
    ((Booked.new repository files).acts hl (by rwa [Nat.zero_add])).agrees
  refine ⟨hagrees, fun r s n hr hs => ?_, fun r n hr => ?_⟩
  · have hrn := (hagrees r n).mp hr
    rw [(hagrees s n).mp hs] at hrn
    exact (Option.some.inj hrn).symm
  · obtain ⟨node, hnode, -⟩ := LocalEngine.occupant?_eq_some_iff.mp ((hagrees r n).mp hr)
    rw [Keyed.contains, hnode]
    rfl

/-- A reservation is made, the engine gets a node, and a cycle over a view that is not the published
one binds the one to the other. Then the node can be neither removed nor taken again. -/
def lending : List Act :=
  [.enqueue Sample.party (.atom "a"), .call (.create Sample.node Sample.definition),
    .maintainOver Sample.view, .call (.remove Sample.handle), .enqueue Sample.party (.atom "a"),
    .maintainOver Sample.view]

theorem occupant?_despite_removal :
    ((new none .empty).acts lending).machinery.engine.occupant? Sample.node = some ⟨1⟩ :=
  ((stage?_bound_iff_occupant? none .empty lending
    (by simp [lending, Act.Brokered, Engine.Call.isExecution]) (by decide)).1
    ⟨1⟩ Sample.node).mp (by decide)

/-! ### Nodes in use -/

/-- A cycle leaves the nodes alone that are in use. -/
theorem find?_seating {inventory : Inventory} {q q' : Queue} {e e' : LocalEngine}
    {bs : List Binding} {n : NodeName} {node : EngineNode} {r : ReservationId}
    (hs : Queue.Seating inventory q e bs q' e') (hn : e.nodes.find? n = some node)
    (hr : node.occupant = some r) : e'.nodes.find? n = some node := by
  induction hs with
  | nil => exact hn
  | cons _ _ _ hfind hidle _ ih =>
    refine ih ?_
    rw [LocalEngine.find?_put, if_neg]
    · exact hn
    · rintro rfl
      rw [Option.some.inj (hfind.symm.trans hn), hr] at hidle
      cases hidle

/-- The end of another reservation leaves a node in use alone. -/
theorem find?_release {q q' : Queue} {e e' : LocalEngine} {id : ReservationId} {b : Binding}
    {n : NodeName} {node : EngineNode} {r : ReservationId} (hs : Queue.Release q e id b q' e')
    (hn : e.nodes.find? n = some node) (hr : node.occupant = some r) (hid : id ≠ r) :
    e'.nodes.find? n = some node := by
  obtain ⟨-, -, hfind, ho⟩ := hs
  rw [LocalEngine.find?_put, if_neg]
  · exact hn
  · rintro rfl
    rw [Option.some.inj (hfind.symm.trans hn), hr] at ho
    exact hid (Option.some.inj ho).symm

variable {d : Deployment} {n : NodeName} {node : EngineNode} {r : ReservationId}

/-- An act other than the end of its reservation leaves a node in use as it is. -/
theorem find?_act_of_occupied {a : Act} (hn : d.machinery.engine.nodes.find? n = some node)
    (hr : node.occupant = some r) (hcall : ∀ b, a = .call (.complete b) → b.reservation ≠ r)
    (hopen : a = .complete r → ∀ b, (d.complete r).1 ≠ .ok b) :
    (d.act a).machinery.engine.nodes.find? n = some node := by
  cases a with
  | apply fetched =>
    refine applied_invariant (I := fun e => e.nodes.find? n = some node) ?_ fetched hn
    intro c e a e' hc hreact he
    exact hreact.find?_of_occupied he hr fun b hb => by rw [hb] at hc; cases hc
  | call c =>
    exact (d.machinery.reacts c).find?_of_occupied hn hr fun b hb => hcall b (congrArg Act.call hb)
  | maintain => exact find?_seating (d.seating_maintained d.pool.view) hn hr
  | maintainOver view => exact find?_seating (d.seating_maintained view) hn hr
  | complete id =>
    change (d.completed id).2.engine.nodes.find? n = some node
    rcases d.release_completed id with ⟨b, hb, hrel⟩ | ⟨-, -, he⟩
    · have hid : id ≠ r := by
        rintro rfl
        exact hopen rfl b hb
      exact find?_release hrel hn hr hid
    · rw [he]
      exact hn
  | giveUp | arrange | reset | setFailing | setFault | enqueue | prune => exact hn

/-- **Nodes in use are protected.** From a state in which a reservation uses a node, the engine
keeps the node as it is, with its incarnation, its definition and its reservation, through every run
of events in which the reservation is not ended successfully. -/
theorem find?_after_of_occupied (events : List Event)
    (hn : d.machinery.engine.nodes.find? n = some node) (hr : node.occupant = some r)
    (hcall : ∀ b, .call (.complete b) ∈ events → b.reservation ≠ r)
    (hopen : ∀ before rest, events = before ++ .complete r :: rest →
      ∀ b, ((d.after before).complete r).1 ≠ .ok b) :
    (d.after events).machinery.engine.nodes.find? n = some node := by
  induction events generalizing d with
  | nil => exact hn
  | cons e events ih =>
    have hstep : (d.step e).2.machinery.engine.nodes.find? n = some node := by
      by_cases he : e = .complete r
      · subst he
        exact find?_act_of_occupied (a := .complete r) hn hr nofun
          fun _ => hopen [] events rfl
      · refine (leads_step d e).invariant
          (I := fun d => d.machinery.engine.nodes.find? n = some node) (fun a d' hpart hd' => ?_) hn
        refine find?_act_of_occupied hd' hr (fun b hb => ?_) fun hb => ?_
        · subst hb
          cases hpart
          exact hcall b List.mem_cons_self
        · subst hb
          cases hpart
          exact absurd rfl he
    refine ih hstep (fun b hb => hcall b (List.mem_cons_of_mem e hb)) fun before rest heq => ?_
    exact hopen (e :: before) rest (congrArg (e :: ·) heq)

/-- While a reservation uses the node, it is not declared any more, it is declared in another way,
the pool forgets everything, and another reservation is ended. -/
def turmoil : List Event :=
  [.publish (.ofList [("config", "orchestrator.url=o")]), .run, .setFailing true,
    .publish (.ofList [("config", "orchestrator.url=o"), ("nodes/n1.toml", "labels='b'")]), .tryRun,
    .setFailing false, .cycle, .run, .reset, .run, .complete ⟨2⟩, .prune, .cutOff "no route", .run]

theorem find?_of_used_through_reset :
    (((new (some "r") .empty).acts lending).after turmoil).machinery.engine.nodes.find?
      Sample.node = some ⟨Sample.handle, Sample.definition, some ⟨1⟩⟩ := by
  refine find?_after_of_occupied (r := ⟨1⟩) turmoil (by decide) rfl (by simp [turmoil]) ?_
  intro before rest heq
  have hmem : Event.complete ⟨1⟩ ∈ turmoil :=
    heq ▸ List.mem_append_right before List.mem_cons_self
  simp [turmoil] at hmem

end Deployment

end NodeLending
