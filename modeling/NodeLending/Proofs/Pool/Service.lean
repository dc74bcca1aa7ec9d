import NodeLending.Proofs.Deployment.Act
import NodeLending.Proofs.Pass.Settled

/-!
# Nodes in service

A node of the pool is in service exactly when the revision that the pool follows declares it. Every
end of a change sees to it, whatever the engine answers: a declared node is put into service before
anything is asked of the engine, and one that is not declared is taken out of service before the
engine is asked to remove it. A pass that does not get as far leaves the revision and the nodes as
they were, and a reset forgets both.

So a cycle lends declared nodes only, and a pool that follows no revision lends none.

## Main definitions

* `Removal.due`: the state of a node that is declared, or is not.
* `PoolView.InService`: the nodes of a view are in service exactly when they are declared.

## Main results

* `Change.ensures_proper`: every change sees to it.
* `Deployment.inService_after`: so does every run of events.
-/

namespace NodeLending

open Engine (Call)

variable {σ : Type} {T : Dialogue.Reaction Call Call.Answer σ} {name : NodeName}
  {node : ManagedNode}

/-- The state of a node that is declared, or is not. -/
def Removal.due (declared : Bool) : Removal := if declared then .active else .pending

theorem Removal.due_eq_active_iff {declared : Bool} :
    due declared = active ↔ declared = true := by
  cases declared <;> simp [due]

theorem Removal.due_eq_pending_iff {declared : Bool} :
    due declared = pending ↔ declared = false := by
  cases declared <;> simp [due]

/-! ### Changes -/

/-- The node that a change leaves has the name of the change, and is in service exactly when it is
declared. A declared node is missing only if something has gone wrong. -/
structure Change.Outcome.Proper (name : NodeName) (declared : Bool) (o : Change.Outcome) :
    Prop where
  /-- The node has its name and its state. -/
  node : ∀ m ∈ o.node, m.name = name ∧ m.removal = .due declared
  /-- A declared node is not missing, unless something has gone wrong. -/
  present : declared = true → o.failure = none → o.node ≠ none

namespace Change

variable {declared : Bool} {o : Outcome}

theorem Outcome.Proper.of_some (h : o.node = some node) (hname : node.name = name)
    (hremoval : node.removal = .due declared) : o.Proper name declared where
  node := by
    rw [h]
    rintro _ ⟨⟩
    exact ⟨hname, hremoval⟩
  present _ _ := h ▸ Option.some_ne_none _

theorem Outcome.Proper.of_none (h : o.node = none) (hf : declared = true → o.failure ≠ none) :
    o.Proper name declared where
  node := by
    rw [h]
    nofun
  present hd hnone := absurd hnone (hf hd)

/-- The report of a change has nothing to do with the node. -/
theorem Outcome.Proper.withReport (h : o.Proper name declared) (report : PassReport) :
    Outcome.Proper name declared { o with report } := ⟨h.node, h.present⟩

theorem ensures_applyDefinition_proper (hname : node.name = name) (hactive : node.removal = .active)
    (d : NodeDefinition) (s : σ) :
    (applyDefinition node d).Ensures T (fun o _ => o.Proper name true) s := by
  intro idle s₁ _
  cases idle with
  | false => exact .of_some rfl hname hactive
  | true =>
    intro a s₂ _
    cases a with
    | ok handle => exact .of_some rfl hname hactive
    | error err => cases err <;> exact .of_some rfl hname hactive

theorem ensures_adopt_proper (d : NodeDefinition) (s : σ) :
    (adopt name d).Ensures T (fun o _ => o.Proper name true) s := by
  intro found s₁ _
  cases found with
  | none => exact .of_none rfl nofun
  | some x =>
    obtain ⟨handle, applied⟩ := x
    change Dialogue.Ensures T (if applied = d then _ else _) _ s₁
    split
    · exact .of_some rfl rfl rfl
    · rw [Dialogue.ensures_bind]
      exact (ensures_applyDefinition_proper rfl rfl d s₁).mono fun o _ ho => ho.withReport _

theorem ensures_bring_proper (d : NodeDefinition) (s : σ) :
    (bring name d).Ensures T (fun o _ => o.Proper name true) s := by
  intro a s₁ _
  cases a with
  | ok handle => exact .of_some rfl rfl rfl
  | error err =>
    cases err with
    | alreadyExists => exact ensures_adopt_proper d s₁
    | _ => exact .of_none rfl nofun

theorem ensures_remove_proper (hname : node.name = name) (s : σ) :
    (remove name node).Ensures T (fun o _ => o.Proper name false) s := by
  intro idle s₁ _
  cases idle with
  | false => exact .of_some rfl hname rfl
  | true =>
    intro a s₂ _
    cases a with
    | ok => exact .of_none rfl nofun
    | error err =>
      cases err with
      | unknownNode => exact .of_none rfl nofun
      | _ => exact .of_some rfl hname rfl

/-- Whatever the engine answers, a change leaves a declared node in service and another one out of
service. -/
theorem ensures_proper {change : Change} (hname : ∀ m ∈ change.before, m.name = name) (s : σ) :
    (change.carryOut name).Ensures T (fun o _ => o.Proper name change.declared?.isSome) s := by
  cases change with
  | keep node => exact Outcome.Proper.of_some rfl (hname node rfl) rfl
  | create d => exact ensures_bring_proper d s
  | redefine node d =>
    have hdeclare : (declare node).name = name := hname node rfl
    rw [carryOut, Dialogue.ensures_bind]
    exact (ensures_applyDefinition_proper hdeclare rfl d s).mono fun o _ ho => ho.withReport _
  | retire node => exact ensures_remove_proper (hname node rfl) s

end Change

/-! ### Views -/

/-- Each node is listed under its name, and is in service exactly when the revision declares it. -/
def Inventory.InService (snapshot : Snapshot) (inventory : Inventory) : Prop :=
  ∀ name node, inventory.find? name = some node →
    node.name = name ∧ node.removal = .due (snapshot.nodes.contains name)

/-- The nodes of a view are in service exactly when they are declared. A view without a revision has
no nodes. -/
structure PoolView.InService (v : PoolView) : Prop where
  /-- The nodes are in service exactly when they are declared. -/
  due : ∀ s, v.snapshot = some s → v.inventory.InService s
  /-- Without a revision there are no nodes. -/
  empty : v.snapshot = none → v.inventory = ∅

namespace PoolView.InService

variable {v : PoolView}

/-- A view that has a node follows a revision. -/
theorem exists_snapshot (h : v.InService) (hn : v.inventory.find? name = some node) :
    ∃ s, v.snapshot = some s ∧ node.name = name ∧
      node.removal = .due (s.nodes.contains name) := by
  cases hs : v.snapshot with
  | none =>
    rw [h.empty hs] at hn
    cases hn
  | some s => exact ⟨s, rfl, h.due s hs name node hn⟩

theorem name_eq (h : v.InService) (hn : v.inventory.find? name = some node) :
    node.name = name := by
  obtain ⟨s, -, hname, -⟩ := h.exists_snapshot hn
  exact hname

end PoolView.InService

/-- A node may be lent only if the pool has it in service. -/
theorem Inventory.exists_of_mem_candidates {inventory : Inventory} {label : Label.Expr}
    (h : name ∈ inventory.candidates label) :
    ∃ key node, inventory.find? key = some node ∧ node.name = name ∧ node.removal = .active := by
  obtain ⟨key, node, hnode, hserves, hname⟩ := Inventory.mem_candidates.mp h
  refine ⟨key, node, hnode, hname, ?_⟩
  have hactive : node.removal.isActive = true := ((Bool.and_eq_true _ _).mp hserves).1
  cases hremoval : node.removal with
  | active => rfl
  | pending =>
    rw [hremoval] at hactive
    cases hactive

/-- The nodes that a view may lend are declared. -/
theorem PoolView.InService.exists_declares {v : PoolView} (h : v.InService) {label : Label.Expr}
    (hn : name ∈ v.inventory.candidates label) :
    ∃ s, v.snapshot = some s ∧ s.nodes.contains name = true := by
  obtain ⟨key, node, hnode, rfl, hactive⟩ := Inventory.exists_of_mem_candidates hn
  obtain ⟨s, hs, rfl, hdue⟩ := h.exists_snapshot hnode
  exact ⟨s, hs, Removal.due_eq_active_iff.mp (hdue.symm.trans hactive)⟩

/-! ### Passes -/

namespace Pass

/-- A pass brings each node into service or takes it out of service, as it is declared or not. -/
theorem ensures_perform_inService {inventory : Inventory}
    (hname : ∀ name node, inventory.find? name = some node → node.name = name)
    (snapshot : Snapshot) (s : σ) :
    (perform snapshot inventory).Ensures T (fun p _ => p.inventory.InService snapshot) s := by
  refine (ensures_settled (v := fun _ _ => ())
    (P := fun name change o _ => o.Proper name change.declared?.isSome)
    (fun name change _ hbefore s₁ _ => ?_)).mono ?_
  · refine (Change.ensures_proper (fun m hm => ?_) s₁).mono fun o _ ho => ⟨ho, fun _ _ => rfl⟩
    exact hname name m (hbefore.trans hm)
  · rintro p s' ⟨outcome, h⟩ name node hnode
    cases hc : Change.of? (snapshot.nodes.find? name) (inventory.find? name) with
    | none =>
      obtain ⟨hd, hi⟩ := Change.of?_eq_none_iff.mp hc
      rw [(h.of_none hd hi).1] at hnode
      cases hnode
    | some change =>
      obtain ⟨hproper, heq⟩ := h.of_change hc
      rw [Keyed.contains, (Change.eq_of_of? hc).2]
      exact hproper.node node (heq.symm.trans hnode)

/-- A pass leaves the nodes in service exactly when they are declared, whatever it has fetched. -/
theorem ensures_inService {pool : Pool} (h : pool.view.InService)
    (fetched : Except FetchError FileTree) (s : σ) :
    (run fetched pool).Ensures T (fun x _ => x.2.view.InService) s := by
  rw [run]
  split
  · exact h
  · next snapshot _ =>
    rw [Dialogue.ensures_bind]
    refine (ensures_perform_inService (fun _ _ => h.name_eq) snapshot s).mono fun p _ hp => ?_
    constructor
    · intro s' hs
      obtain rfl : snapshot = s' := Option.some.inj hs
      exact hp
    · intro hnone
      cases hnone

end Pass

/-! ### Runs -/

/-- Each binding of a cycle is to a node that may be lent. -/
theorem Queue.Seating.exists_mem_candidates {inventory : Inventory} {q q' : Queue}
    {e e' : LocalEngine} {bs : List Binding} (h : Seating inventory q e bs q' e') :
    ∀ b ∈ bs, ∃ label, b.node ∈ inventory.candidates label := by
  induction h with
  | nil => simp
  | cons _ _ hc _ _ _ ih => exact List.forall_mem_cons.mpr ⟨⟨_, hc⟩, ih⟩

namespace Deployment

variable {d : Deployment}

/-- Every act leaves the nodes in service exactly when they are declared. -/
theorem inService_act (h : d.pool.view.InService) (a : Act) : (d.act a).pool.view.InService := by
  cases a with
  | apply fetched =>
    exact Dialogue.ensures_answer.mp (Pass.ensures_inService
      (T := fun c (m : Machinery) a m' => m.answer c = (a, m')) h fetched d.machinery)
  | reset => exact ⟨nofun, fun _ => rfl⟩
  | _ => exact h

/-- **In service if and only if declared.** After every run of events, each node of the pool is in
service exactly when the revision that the pool follows declares it, and waits to be removed exactly
when it does not. A pool that follows no revision has no nodes. So a cycle binds reservations to
declared nodes only. -/
theorem inService_after (repository : Option String) (files : FileTree) (events : List Event) :
    let d := (new repository files).after events
    (∀ s, d.pool.view.snapshot = some s → ∀ name node, d.inventory.find? name = some node →
      (node.removal = .active ↔ s.nodes.contains name = true) ∧
      (node.removal = .pending ↔ s.nodes.contains name = false)) ∧
    (d.pool.view.snapshot = none → d.inventory = ∅) ∧
    ∀ b ∈ d.maintain.1, ∃ s, d.pool.view.snapshot = some s ∧ s.nodes.contains b.node = true := by
  intro d
  have hd : d.pool.view.InService := (leads_after _ events).invariant
    (I := fun d => d.pool.view.InService) (fun a _ _ h => inService_act h a) ⟨nofun, fun _ => rfl⟩
  refine ⟨fun s hs name node hnode => ?_, hd.empty, fun b hb => ?_⟩
  · rw [(hd.due s hs name node hnode).2]
    exact ⟨Removal.due_eq_active_iff, Removal.due_eq_pending_iff⟩
  · obtain ⟨label, hlabel⟩ := (d.seating_maintained d.pool.view).exists_mem_candidates b hb
    exact hd.exists_declares hlabel

end Deployment

end NodeLending
