import NodeLending.Proofs.Pass.Course
import NodeLending.Proofs.Pool.Stray
import NodeLending.Proofs.Reservation.Occupancy

/-!
# Nodes on their way out

A node that is not declared any more goes out of service at once, and is removed when nobody uses
it. Until then it is not lent again: only nodes in service are lent, and the node stays out of
service until it is declared. So its last reservation ends sooner or later, and the first pass
afterwards that reaches a sound engine removes the node.

## Main definitions

* `Act.Spares`: the act neither declares the node nor goes around the pool.
* `Deployment.Draining`: the node is on its way out, or gone.

## Main results

* `Deployment.Draining.act`, `Deployment.Draining.occupant?_act`: what acts make of such a node.
* `Deployment.Draining.gone`: a pass over a sound engine removes it when it is idle.
* `Deployment.drained`: the way out of a node.
-/

namespace NodeLending

/-- Nodes are changed by passes only, reservations start and end in the queue only and on the
published view, the pool forgets nothing, and no revision that is read declares the node. -/
structure Act.Spares (n : NodeName) (a : Act) : Prop where
  orderly : a.Orderly
  brokered : a.Brokered
  published : ∀ view, a ≠ .maintainOver view
  remembered : a ≠ .reset
  undeclared : ∀ fetched s, a = .apply fetched → Pass.read fetched = .ok s →
    s.nodes.find? n = none

/-- The end of a reservation declares nothing. -/
theorem Act.spares_complete (n : NodeName) (id : ReservationId) : (complete id).Spares n where
  orderly := trivial
  brokered := trivial
  published := nofun
  remembered := nofun
  undeclared := nofun

section Reservations

variable {inventory : Inventory} {q q' : Queue} {e e' : LocalEngine} {n : NodeName}

/-- A node that may not be lent is not lent. -/
theorem Queue.Seating.occupant?_eq {bs : List Binding} (h : Seating inventory q e bs q' e')
    (hn : ∀ label, n ∉ inventory.candidates label) : e'.occupant? n = e.occupant? n := by
  induction h with
  | nil => rfl
  | @cons _ _ _ _ _ _ r name node _ _ hc _ _ _ ih =>
    have hne : n ≠ name := by
      rintro rfl
      exact hn r.label hc
    rw [ih, LocalEngine.occupant?_put, if_neg hne]

/-- The end of a reservation gives no node to another one. -/
theorem Queue.Release.occupant?_eq {id : ReservationId} {b : Binding} (h : Release q e id b q' e')
    (n : NodeName) : e'.occupant? n = e.occupant? n ∨ e'.occupant? n = none := by
  cases h with
  | @intro _ name _ _ _ _ _ =>
    rw [LocalEngine.occupant?_put]
    by_cases hname : n = name
    · exact Or.inr (if_pos hname)
    · exact Or.inl (if_neg hname)

end Reservations

/-- An idle node that is not declared any more is removed, if the engine does not fail for it. -/
theorem Change.Course.of_retire {name : NodeName} {node : ManagedNode} {x : EngineNode}
    {o : Outcome} {y : Option EngineNode} {called : Bool}
    (h : Course none name (.retire node) (some x) o y called) (hidle : x.occupant = none) :
    o.node = none ∧ y = none := by
  cases h with
  | parked hbusy => exact absurd hidle hbusy
  | removed => exact ⟨rfl, rfl⟩
  | removalFailed hwhy => cases hwhy

namespace Deployment

variable {full : Prop} {d : Deployment} {n : NodeName}

theorem Reachable.inService (h : d.Reachable full) : d.pool.view.InService := by
  induction h with
  | new repository files => exact ⟨nofun, fun _ => rfl⟩
  | act _ _ _ ih => exact inService_act ih _
  | race _ fetched rivals queue ih =>
    exact Dialogue.ensures_answer.mp (Pass.ensures_inService
      (T := fun c t a t' => rivals.answer c t = (a, t')) ih fetched ([], _))

/-- The node is not declared, and the pool has it if the engine does. -/
structure Draining (full : Prop) (d : Deployment) (n : NodeName) : Prop where
  inLine : d.InLine full
  inService : d.pool.view.InService
  undeclared : ∀ s, d.pool.view.snapshot = some s → s.nodes.find? n = none
  kept : ¬d.Stray n

namespace Draining

/-- A node that waits to be removed is on its way out. -/
theorem of_pending (hd : d.Reachable full) {node : ManagedNode}
    (hn : d.inventory.find? n = some node) (hpending : node.removal = .pending) :
    d.Draining full n := by
  refine ⟨hd.inLine, hd.inService, fun s hs => ?_, fun hstray => ?_⟩
  · have hdue := (hd.inService.due s hs n node hn).2
    rw [hpending, eq_comm, Removal.due_eq_pending_iff, Keyed.contains,
      Option.isSome_eq_false_iff, Option.isNone_iff_eq_none] at hdue
    exact hdue
  · have hmissing := (stray_iff.mp hstray).2
    rw [hn] at hmissing
    cases hmissing

/-- The node does not come back into service. -/
theorem removal_eq (h : d.Draining full n) {node : ManagedNode}
    (hn : d.inventory.find? n = some node) : node.removal = .pending := by
  obtain ⟨s, hs, -, hdue⟩ := h.inService.exists_snapshot hn
  rw [hdue, Removal.due_eq_pending_iff, Keyed.contains, h.undeclared s hs]
  rfl

theorem not_mem_candidates (h : d.Draining full n) (label : Label.Expr) :
    n ∉ d.inventory.candidates label := by
  intro hn
  obtain ⟨s, hs, hdeclared⟩ := h.inService.exists_declares hn
  rw [Keyed.contains, h.undeclared s hs] at hdeclared
  cases hdeclared

/-- A node on its way out stays so. -/
theorem act (h : d.Draining full n) {a : Act} (ha : a.Spares n) : (d.act a).Draining full n := by
  refine ⟨h.inLine.act ha.orderly fun _ => ha.remembered, inService_act h.inService a, ?_, ?_⟩
  · intro s hs
    cases a with
    | apply fetched =>
      rw [snapshot_apply] at hs
      cases hread : Pass.read fetched with
      | error e =>
        rw [hread] at hs
        exact h.undeclared s hs
      | ok s' =>
        rw [hread] at hs
        obtain rfl : s' = s := Option.some.inj hs
        exact ha.undeclared fetched s' rfl hread
    | reset => exact absurd rfl ha.remembered
    | _ => exact h.undeclared s hs
  · exact fun hstray => h.kept (h.inLine.stray_act ha.orderly ha.remembered hstray)

/-- A node on its way out is given to no reservation. -/
theorem occupant?_act (h : d.Draining full n) {a : Act} (ha : a.Spares n) :
    (d.act a).machinery.engine.occupant? n = d.machinery.engine.occupant? n ∨
      (d.act a).machinery.engine.occupant? n = none := by
  cases a with
  | apply fetched =>
    refine Or.inl (applied_invariant
      (I := fun e => e.occupant? n = d.machinery.engine.occupant? n) ?_ fetched rfl)
    exact fun c e a e' hc hreact he => (hreact.occupant?_eq hc n).trans he
  | call c => exact Or.inl ((d.machinery.reacts c).occupant?_eq ha.brokered n)
  | maintain => exact Or.inl ((d.seating_maintained d.pool.view).occupant?_eq h.not_mem_candidates)
  | maintainOver view => exact absurd rfl (ha.published view)
  | complete id =>
    change (d.completed id).2.engine.occupant? n = _ ∨ _
    rcases d.release_completed id with ⟨b, -, hrel⟩ | ⟨-, -, he⟩
    · exact hrel.occupant?_eq n
    · exact Or.inl (by rw [he])
  | giveUp | arrange | reset | setFailing | setFault | enqueue | prune => exact Or.inl rfl

/-- A pass over a sound engine removes the node when it is idle. -/
theorem gone (h : d.Draining full n) (hsound : d.machinery.Sound)
    (hidle : d.machinery.engine.occupant? n = none) {tree : FileTree} {snapshot : Snapshot}
    (hread : Snapshot.read tree = .ok snapshot) (hn : snapshot.nodes.find? n = none) :
    (d.act (.apply (.ok tree))).inventory.find? n = none ∧
      (d.act (.apply (.ok tree))).machinery.engine.nodes.find? n = none := by
  cases hi : d.inventory.find? n with
  | none =>
    -- The node is gone already, since it is not astray.
    obtain ⟨p, outcome, heq, hp⟩ := applied_coursed h.inLine hsound.suffers hread
    obtain ⟨hnode, hshown⟩ := hp.of_none hn hi
    have hpool : (d.act (.apply (.ok tree))).pool = Pass.publish d.pool snapshot p :=
      congrArg Prod.snd heq
    refine ⟨by rw [inventory, hpool]; exact hnode, (congrArg Prod.fst hshown).trans ?_⟩
    by_contra hthere
    refine h.kept (stray_iff.mpr ⟨?_, hi⟩)
    rwa [ne_eq, LocalEngine.roster_eq_none_iff]
  | some node =>
    obtain ⟨occupant, hx⟩ := h.inLine.mirrors.exists_find? hi
    have hchange : Change.of? (snapshot.nodes.find? n) (d.inventory.find? n) =
        some (.retire node) := by rw [hn, hi, Change.of?]
    obtain ⟨o, called, hcourse, hnode⟩ := course_applied h.inLine hsound hread hchange
    rw [LocalEngine.occupant?_of_find? hx] at hidle
    rw [hx] at hcourse
    rw [hnode]
    exact hcourse.of_retire hidle

end Draining

/-- **A node on its way out.** From a state in which a node waits to be removed, let acts follow
that do not declare it. None of them gives the node to a reservation: whoever uses it goes on to do
so or is done with it. The node does not come back into service. When it is idle and the engine is
sound, a pass over a revision that does not declare it removes it from the engine and from the
pool. -/
theorem drained (hd : d.Reachable full) {node : ManagedNode}
    (hn : d.inventory.find? n = some node) (hpending : node.removal = .pending) {l : List Act}
    (hl : ∀ a ∈ l, a.Spares n) :
    let d' := d.acts l
    (∀ a : Act, a.Spares n →
      (d'.act a).machinery.engine.occupant? n = d'.machinery.engine.occupant? n ∨
        (d'.act a).machinery.engine.occupant? n = none) ∧
    (∀ m ∈ d'.inventory.find? n, m.removal = .pending) ∧
    ∀ tree snapshot, d'.machinery.Sound → d'.machinery.engine.occupant? n = none →
      Snapshot.read tree = .ok snapshot → snapshot.nodes.find? n = none →
      (d'.act (.apply (.ok tree))).inventory.find? n = none ∧
        (d'.act (.apply (.ok tree))).machinery.engine.nodes.find? n = none := by
  intro d'
  have h : d'.Draining full n :=
    acts_induction (I := fun d => d.Draining full n) (fun _ _ ha h => h.act ha) hl
      (.of_pending hd hn hpending)
  exact ⟨fun _ => h.occupant?_act, fun _ => h.removal_eq, fun _ _ hs hidle => h.gone hs hidle⟩

/-- The node is taken, and then it is not declared any more. -/
def retiring : List Act :=
  [.apply (.ok Sample.revision), .enqueue Sample.party (.atom "a"), .maintain,
    .apply (.ok Sample.bareRevision)]

/-- Once its reservation has ended, the next pass removes the node. -/
theorem find?_eq_none_of_completed :
    ((((new none .empty).acts retiring).acts [.complete ⟨1⟩]).act
      (.apply (.ok Sample.bareRevision))).machinery.engine.nodes.find? Sample.node = none := by
  have hd : Reachable True ((new none .empty).acts retiring) :=
    (Reachable.new none .empty).acts (by simp [retiring, Act.Orderly]) (by simp [retiring])
  have hspares : ∀ a ∈ [Act.complete ⟨1⟩], a.Spares Sample.node := by
    simpa using Act.spares_complete Sample.node ⟨1⟩
  have hrun : ((new none .empty).acts retiring).inventory.find? Sample.node =
        some ⟨Sample.node, Sample.definition, Sample.handle, .pending⟩ ∧
      (((new none .empty).acts retiring).acts
        [.complete ⟨1⟩]).machinery.engine.occupant? Sample.node = none ∧
      (((new none .empty).acts retiring).acts [.complete ⟨1⟩]).machinery.Sound := by
    simp only [acts, retiring, List.foldl_cons, List.foldl_nil, act, applied]
    rw [Pass.run_of_read Sample.read_revision, Pass.run_of_read Sample.read_bareRevision]
    exact ⟨by decide, by decide, fun _ _ => rfl, rfl⟩
  obtain ⟨hn, hidle, hsound⟩ := hrun
  exact ((drained hd hn rfl hspares).2.2 _ _ hsound hidle Sample.read_bareRevision rfl).2

end Deployment

end NodeLending
