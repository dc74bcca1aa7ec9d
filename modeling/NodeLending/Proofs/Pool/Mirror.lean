import NodeLending.Proofs.Deployment.Act
import NodeLending.Proofs.Engine.Roster
import NodeLending.Proofs.Pass.Sweep

/-!
# The pool and the engine

What the pool shows of a node is what the engine has: the same incarnation with the same definition,
under the same name. A change comes to one of a few ends, which are listed here with what the engine
has had and what it has then. Each end is in line with this, those included at which the engine
refuses a call, and so is every pass.

As long as the pool has not forgotten anything, the engine has no other nodes. This is carried along
as a condition that may or may not be asked for, since a reset gives it up.

## Main definitions

* `Roster.Mirrors`: what the pool has under a name is what the engine has there.
* `Change.Redefinition`, `Change.Ending`: the ends of a redefinition and of a change.
* `Act.Orderly`, `Event.Orderly`: nodes are changed by passes only.

## Main results

* `Change.ensures_ends`: the list of ends is complete.
* `Change.ensures_mirrors`, `Pass.ensures_mirrors`: changes and passes keep the pool in line.
* `Deployment.inventory_mirrors`: so does every run of orderly events.
-/

namespace NodeLending

open Engine (Call)

/-! ### One name -/

/-- What the pool has under a name is what the engine has there. If the pool is to be full, the
engine has nothing where the pool has nothing. -/
structure Roster.Mirrors (full : Prop) (ρ : Roster) (name : NodeName)
    (node : Option ManagedNode) : Prop where
  /-- The engine has its node under the name of the node. -/
  named : ∀ x ∈ ρ name, x.1.name = name
  /-- What the pool has is what the engine has. -/
  shown : ∀ m ∈ node, m.name = name ∧ ρ name = some (m.handle, m.definition)
  /-- Where a full pool has nothing, the engine has nothing. -/
  full : full → node = none → ρ name = none

namespace Roster.Mirrors

variable {full : Prop} {ρ ρ' : Roster} {name : NodeName} {node : ManagedNode}
  {x : Option ManagedNode}

theorem congr (h : ρ.Mirrors full name x) (heq : ρ' name = ρ name) : ρ'.Mirrors full name x where
  named := by
    rw [heq]
    exact h.named
  shown := by
    rw [heq]
    exact h.shown
  full := by
    rw [heq]
    exact h.full

theorem name_eq (h : ρ.Mirrors full name (some node)) : node.name = name := (h.shown node rfl).1

theorem roster_eq (h : ρ.Mirrors full name (some node)) :
    ρ name = some (node.handle, node.definition) := (h.shown node rfl).2

theorem handle_name_eq (h : ρ.Mirrors full name (some node)) : node.handle.name = name :=
  h.named _ h.roster_eq

/-- Whether a node is in service has nothing to do with the engine. -/
theorem withRemoval (h : ρ.Mirrors full name (some node)) (removal : Removal) :
    ρ.Mirrors full name (some { node with removal }) where
  named := h.named
  shown := by
    rintro _ ⟨⟩
    exact h.shown node rfl
  full := nofun

/-- A node that the engine has under its name. -/
theorem of_some (hname : node.name = name) (hhandle : node.handle.name = name)
    (h : ρ name = some (node.handle, node.definition)) : ρ.Mirrors full name (some node) where
  named := by
    rw [h]
    rintro _ ⟨⟩
    exact hhandle
  shown := by
    rintro _ ⟨⟩
    exact ⟨hname, h⟩
  full := nofun

/-- A node that is nowhere. -/
theorem of_none (h : ρ name = none) : ρ.Mirrors full name none where
  named := by
    rw [h]
    nofun
  shown := nofun
  full := fun _ _ => h

end Roster.Mirrors

/-! ### Changes -/

/-- A change under a name has an outcome that is what the engine has there, and changes nothing
elsewhere. -/
structure Change.Outcome.InLine (full : Prop) (ρ : Roster) (name : NodeName) (o : Change.Outcome)
    (ρ' : Roster) : Prop where
  /-- What becomes of the node is what the engine has. -/
  mirrors : ρ'.Mirrors full name o.node
  /-- The other nodes stay as they are. -/
  frame : ∀ n ≠ name, ρ' n = ρ n

namespace Change

/-- The ends of a redefinition: the outcome, and what the engine has under the name then. -/
inductive Redefinition (node : ManagedNode) (d : NodeDefinition) :
    Outcome → Option (NodeHandle × NodeDefinition) → Prop
  | updated : Redefinition node d ⟨some { node with definition := d }, { updated := 1 }, none⟩
      (some (node.handle, d))
  | deferred : Redefinition node d ⟨some node, { deferred := 1 }, none⟩
      (some (node.handle, node.definition))
  | failed (why : String) : Redefinition node d ⟨some node, {}, some why⟩
      (some (node.handle, node.definition))

/-- The ends of a change: what the engine has under the name, the outcome, and what the engine has
there then. -/
inductive Ending (name : NodeName) : Change → Option (NodeHandle × NodeDefinition) → Outcome →
    Option (NodeHandle × NodeDefinition) → Prop
  | kept (node : ManagedNode) : Ending name (keep node) (some (node.handle, node.definition))
      ⟨some (declare node), { unchanged := 1 } + reactivation node, none⟩
      (some (node.handle, node.definition))
  | created (d : NodeDefinition) {handle : NodeHandle} (hname : handle.name = name) :
      Ending name (create d) none ⟨some ⟨name, d, handle, .active⟩, { created := 1 }, none⟩
        (some (handle, d))
  | notCreated (d : NodeDefinition) (x : Option (NodeHandle × NodeDefinition)) (why : String) :
      Ending name (create d) x ⟨none, {}, some why⟩ x
  | adopted (d : NodeDefinition) (handle : NodeHandle) : Ending name (create d) (some (handle, d))
      ⟨some ⟨name, d, handle, .active⟩, { adopted := 1 }, none⟩ (some (handle, d))
  | adoptedRedefined {applied d : NodeDefinition} {handle : NodeHandle} {o : Outcome}
      {x' : Option (NodeHandle × NodeDefinition)} (hne : applied ≠ d)
      (h : Redefinition ⟨name, applied, handle, .active⟩ d o x') : Ending name (create d)
      (some (handle, applied)) { o with report := { adopted := 1 } + o.report } x'
  | redefined {node : ManagedNode} {d : NodeDefinition} {o : Outcome}
      {x' : Option (NodeHandle × NodeDefinition)} (h : Redefinition (declare node) d o x') :
      Ending name (redefine node d) (some (node.handle, node.definition))
        { o with report := reactivation node + o.report } x'
  | parked (node : ManagedNode) : Ending name (retire node) (some (node.handle, node.definition))
      ⟨some { node with removal := .pending }, { pendingRemoval := 1 }, none⟩
      (some (node.handle, node.definition))
  | removed (node : ManagedNode) : Ending name (retire node) (some (node.handle, node.definition))
      ⟨none, { removed := 1 }, none⟩ none
  | notRemoved (node : ManagedNode) (why : String) : Ending name (retire node)
      (some (node.handle, node.definition))
      ⟨some { node with removal := .pending }, { pendingRemoval := 1 }, some why⟩
      (some (node.handle, node.definition))

open Roster (Reacts Mirrors)

variable {full : Prop} {ρ ρ' : Roster} {name : NodeName} {node : ManagedNode} {change : Change}
  {o : Outcome} {x x' : Option (NodeHandle × NodeDefinition)}

theorem Redefinition.mirrors {d : NodeDefinition} (h : Redefinition node d o x')
    (hname : node.name = name) (hhandle : node.handle.name = name) (hx' : ρ name = x') :
    ρ.Mirrors full name o.node := by
  cases h with
  | updated | deferred | failed => exact .of_some hname hhandle hx'

/-- Each end of a change is in line. -/
theorem Ending.mirrors (h : Ending name change x o x') (hbefore : ρ.Mirrors full name change.before)
    (hx : ρ name = x) (hx' : ρ' name = x') : ρ'.Mirrors full name o.node := by
  cases h with
  | kept node => exact (hbefore.congr (hx'.trans hx.symm)).withRemoval .active
  | created d hname => exact .of_some rfl hname hx'
  | notCreated => exact hbefore.congr (hx'.trans hx.symm)
  | adopted d handle => exact .of_some rfl (hbefore.named _ hx) hx'
  | adoptedRedefined _ h => exact h.mirrors rfl (hbefore.named _ hx) hx'
  | redefined h => exact h.mirrors hbefore.name_eq hbefore.handle_name_eq hx'
  | parked | notRemoved => exact (hbefore.congr (hx'.trans hx.symm)).withRemoval .pending
  | removed => exact .of_none hx'

theorem ensures_redefinition (h : ρ.Mirrors full name (some node)) (d : NodeDefinition) :
    (applyDefinition node d).Ensures Reacts
      (fun o ρ' => ∃ x', Redefinition node d o x' ∧ ρ' = Function.update ρ name x') ρ := by
  have hsame : ρ = Function.update ρ name (some (node.handle, node.definition)) := by
    rw [← h.roster_eq, Function.update_eq_self]
  intro idle ρ₁ hidle
  cases hidle
  cases idle with
  | false => exact ⟨_, .deferred, hsame⟩
  | true =>
    intro a ρ₂ ha
    cases ha with
    | updated hold =>
      rw [h.handle_name_eq, h.roster_eq, Option.some.injEq, Prod.mk.injEq] at hold
      obtain ⟨rfl, rfl⟩ := hold
      rw [h.handle_name_eq]
      exact ⟨_, .updated, rfl⟩
    | updateRefused _ _ err =>
      cases err with
      | occupied => exact ⟨_, .deferred, hsame⟩
      | _ => exact ⟨_, .failed _, hsame⟩

/-- A change has ended, and everything else on the engine is the same. -/
def EndsFrom (ρ : Roster) (name : NodeName) (change : Change) (o : Outcome) (ρ' : Roster) : Prop :=
  ∃ x', Ending name change (ρ name) o x' ∧ ρ' = Function.update ρ name x'

theorem EndsFrom.of_eq (h : Ending name change (ρ name) o (ρ name)) :
    EndsFrom ρ name change o ρ := ⟨_, h, (Function.update_eq_self ..).symm⟩

theorem EndsFrom.ending (h : EndsFrom ρ name change o ρ') :
    Ending name change (ρ name) o (ρ' name) := by
  obtain ⟨x', hend, rfl⟩ := h
  rwa [Function.update_self]

theorem EndsFrom.frame (h : EndsFrom ρ name change o ρ') : ∀ n ≠ name, ρ' n = ρ n := by
  obtain ⟨x', -, rfl⟩ := h
  exact fun n hn => Function.update_of_ne hn ..

theorem ensures_adopt (h : ρ.Mirrors full name none) (d : NodeDefinition) :
    (adopt name d).Ensures Reacts (EndsFrom ρ name (create d)) ρ := by
  intro found ρ₁ hfound
  cases hfound with
  | existing hx =>
    cases found with
    | none => exact .of_eq (.notCreated d _ _)
    | some x =>
      -- The node is taken over as the engine has it, and only then redefined.
      obtain ⟨handle, applied⟩ := x
      have hroster : ρ name = some (handle, applied) := hx _ rfl
      have hnode : ρ.Mirrors full name (some ⟨name, applied, handle, .active⟩) :=
        .of_some rfl (h.named _ hroster) hroster
      change Dialogue.Ensures Reacts (if applied = d then _ else _) _ ρ
      split
      · next heq =>
        subst heq
        refine .of_eq ?_
        rw [hroster]
        exact .adopted applied handle
      · next hne =>
        rw [Dialogue.ensures_bind]
        refine (ensures_redefinition hnode d).mono ?_
        rintro o ρ' ⟨x', hend, rfl⟩
        refine ⟨x', ?_, rfl⟩
        rw [hroster]
        exact .adoptedRedefined hne hend

theorem ensures_bring (h : ρ.Mirrors full name none) (d : NodeDefinition) :
    (bring name d).Ensures Reacts (EndsFrom ρ name (create d)) ρ := by
  intro a ρ₁ ha
  cases ha with
  | created hname hnone =>
    refine ⟨_, ?_, rfl⟩
    rw [hnone]
    exact .created d hname
  | createRefused _ _ err =>
    cases err with
    | alreadyExists => exact ensures_adopt h d
    | _ => exact .of_eq (.notCreated d _ _)

theorem ensures_remove (h : ρ.Mirrors full name (some node)) :
    (remove name node).Ensures Reacts (EndsFrom ρ name (retire node)) ρ := by
  intro idle ρ₁ hidle
  cases hidle
  have hparked : EndsFrom ρ name (retire node)
      ⟨some { node with removal := .pending }, { pendingRemoval := 1 }, none⟩ ρ := by
    refine .of_eq ?_
    rw [h.roster_eq]
    exact .parked node
  cases idle with
  | false => exact hparked
  | true =>
    intro a ρ₂ ha
    cases ha with
    | removed =>
      rw [h.handle_name_eq]
      refine ⟨none, ?_, rfl⟩
      rw [h.roster_eq]
      exact .removed node
    | @removeRefused _ err hgone =>
      cases err with
      | unknownNode n =>
        -- The engine has the node, so it is not the one that an engine does not know.
        have hnone := hgone n rfl
        rw [h.handle_name_eq, h.roster_eq] at hnone
        cases hnone
      | occupied => exact hparked
      | _ =>
        refine .of_eq ?_
        rw [h.roster_eq]
        exact .notRemoved node _

/-- A change comes to one of its ends, whatever the engine answers. -/
theorem ensures_ends (h : ρ.Mirrors full name change.before) :
    (change.carryOut name).Ensures Reacts (EndsFrom ρ name change) ρ := by
  cases change with
  | keep node =>
    refine EndsFrom.of_eq ?_
    rw [h.roster_eq]
    exact .kept node
  | create d => exact ensures_bring h d
  | redefine node d =>
    rw [carryOut, Dialogue.ensures_bind]
    refine (ensures_redefinition (h.withRemoval .active) d).mono ?_
    rintro o ρ' ⟨x', hend, rfl⟩
    refine ⟨x', ?_, rfl⟩
    rw [h.roster_eq]
    exact .redefined hend
  | retire node => exact ensures_remove h

/-- A change keeps the pool in line with the engine. -/
theorem ensures_mirrors (h : ρ.Mirrors full name change.before) :
    (change.carryOut name).Ensures Reacts (fun o ρ' => o.InLine full ρ name ρ') ρ :=
  (ensures_ends h).mono fun _ _ hend => ⟨hend.ending.mirrors h rfl rfl, hend.frame⟩

end Change

/-! ### Passes -/

/-- The pool shows what the engine has. -/
def Inventory.Mirrors (full : Prop) (inventory : Inventory) (ρ : Roster) : Prop :=
  ∀ name, ρ.Mirrors full name (inventory.find? name)

namespace Inventory.Mirrors

variable {full : Prop} {inventory : Inventory} {e : LocalEngine}

/-- The engine has what the pool shows. -/
theorem exists_find? (h : inventory.Mirrors full e.roster) {name : NodeName} {node : ManagedNode}
    (hnode : inventory.find? name = some node) :
    ∃ occupant, e.nodes.find? name = some ⟨node.handle, node.definition, occupant⟩ := by
  have hname := h name
  rw [hnode] at hname
  obtain ⟨⟨handle, definition, occupant⟩, hen, rfl, rfl⟩ :=
    LocalEngine.roster_eq_some_iff.mp hname.roster_eq
  exact ⟨occupant, hen⟩

/-- Where the engine has nothing, the pool has nothing. -/
theorem find?_eq_none (h : inventory.Mirrors full e.roster) {name : NodeName}
    (hx : e.nodes.find? name = none) : inventory.find? name = none := by
  rw [Option.eq_none_iff_forall_ne_some]
  intro node hnode
  obtain ⟨occupant, hen⟩ := h.exists_find? hnode
  rw [hx] at hen
  cases hen

/-- What the engine has is in a full pool, in service or not. -/
theorem exists_removal (h : inventory.Mirrors full e.roster) (hfull : full) {name : NodeName}
    {x : EngineNode} (hx : e.nodes.find? name = some x) :
    ∃ removal, inventory.find? name = some ⟨name, x.definition, x.handle, removal⟩ := by
  have hname := h name
  cases hnode : inventory.find? name with
  | none =>
    have hnone := LocalEngine.roster_eq_none_iff.mp (hname.full hfull hnode)
    rw [hx] at hnone
    cases hnone
  | some node =>
    rw [hnode] at hname
    have hroster := hname.roster_eq
    rw [LocalEngine.roster_of_find? hx, Option.some.injEq, Prod.mk.injEq] at hroster
    obtain ⟨hhandle, hdefinition⟩ := hroster
    exact ⟨node.removal, by rw [hhandle, hdefinition, ← hname.name_eq]⟩

/-- A full pool shows all that the engine has. -/
theorem keys_eq (h : inventory.Mirrors full e.roster) (hfull : full) :
    inventory.keys = e.nodes.keys := by
  refine Keyed.keys_eq_of_contains_eq fun name => ?_
  rw [Keyed.contains, Keyed.contains]
  cases hnode : inventory.find? name with
  | none =>
    rw [LocalEngine.roster_eq_none_iff.mp ((h name).full hfull hnode)]
    rfl
  | some node =>
    obtain ⟨occupant, hen⟩ := h.exists_find? hnode
    rw [hen]
    rfl

end Inventory.Mirrors

/-- A change that has come out in line is noted in line. -/
theorem Progress.note_mirrors {full : Prop} {ρ ρ' : Roster} {p : Progress} {name : NodeName}
    {o : Change.Outcome} (h : p.inventory.Mirrors full ρ) (ho : o.InLine full ρ name ρ') :
    (p.note name o).inventory.Mirrors full ρ' := by
  intro n
  rw [find?_note]
  split
  · next heq => exact heq ▸ ho.mirrors
  · next hne => exact (h n).congr (ho.frame n hne)

namespace Pass

variable {full : Prop} {ρ : Roster}

theorem ensures_perform_mirrors {inventory : Inventory} (h : inventory.Mirrors full ρ)
    (snapshot : Snapshot) :
    (perform snapshot inventory).Ensures Roster.Reacts
      (fun p ρ' => p.inventory.Mirrors full ρ') ρ := by
  refine ensures_perform (J := fun p ρ' => p.inventory.Mirrors full ρ') ?_ h
  intro name change _ p ρ₁ hbefore hp
  have hname := hp name
  rw [hbefore] at hname
  exact (Change.ensures_mirrors hname).mono fun o ρ₂ ho => Progress.note_mirrors hp ho

/-- A pass keeps the pool in line with the engine, whatever it has fetched. -/
theorem ensures_mirrors {pool : Pool} (h : pool.view.inventory.Mirrors full ρ)
    (fetched : Except FetchError FileTree) :
    (run fetched pool).Ensures Roster.Reacts
      (fun x ρ' => x.2.view.inventory.Mirrors full ρ') ρ := by
  rw [run]
  split
  · exact h
  · rw [Dialogue.ensures_bind]
    exact (ensures_perform_mirrors h _).mono fun p ρ' hp => hp

end Pass

/-! ### Runs -/

section Reservations

variable {inventory : Inventory} {q q' : Queue} {e e' : LocalEngine}

/-- A cycle does nothing to the nodes themselves. -/
theorem Queue.Seating.roster_eq {bs : List Binding} (h : Seating inventory q e bs q' e') :
    e'.roster = e.roster := by
  induction h with
  | nil => rfl
  | cons _ _ _ hn _ _ ih => exact ih.trans (LocalEngine.roster_put_of_find? hn _)

/-- The end of a reservation does nothing to the node itself. -/
theorem Queue.Release.roster_eq {id : ReservationId} {b : Binding} (h : Release q e id b q' e') :
    e'.roster = e.roster := by
  obtain ⟨-, -, hn, -⟩ := h
  exact LocalEngine.roster_put_of_find? hn _

end Reservations

/-- Nodes are changed by passes only, and no fault reports a node as unknown. -/
def Act.Orderly : Act → Prop
  | call c => c.isLifecycle = false
  | setFault _ _ fault => ∀ f ∈ fault, f.Honest
  | _ => True

/-- Nodes are changed by passes only, and no fault reports a node as unknown. -/
def Event.Orderly : Event → Prop
  | call c => c.isLifecycle = false
  | setFault _ _ fault => ∀ f ∈ fault, f.Honest
  | _ => True

theorem Act.PartOf.orderly {a : Act} {e : Event} (h : a.PartOf e) (he : e.Orderly) :
    a.Orderly := by
  cases h with
  | call | setFault => exact he
  | _ => trivial

theorem Machinery.Honest.setFault {m : Machinery} {kind : Call.Kind} {name : NodeName}
    {fault : Option Fault} (h : m.Honest) (hf : ∀ f ∈ fault, f.Honest) :
    (m.setFault kind name fault).Honest := by
  intro k n f hfn
  change f ∈ (if k = kind ∧ n = name then fault else m.fault? k n) at hfn
  split at hfn
  · exact hf f hfn
  · exact h k n f hfn

namespace Deployment

/-- Only passes and resets do anything to the nodes of the pool. -/
theorem inventory_act {d : Deployment} {a : Act} (hpass : ∀ fetched, a ≠ .apply fetched)
    (hreset : a ≠ .reset) : (d.act a).inventory = d.inventory := by
  cases a with
  | apply fetched => exact absurd rfl (hpass fetched)
  | reset => exact absurd rfl hreset
  | _ => rfl

/-- The pool shows what the engine has, and the faults are honest. -/
structure InLine (full : Prop) (d : Deployment) : Prop where
  /-- No fault reports a node as unknown. -/
  honest : d.machinery.Honest
  /-- The pool shows what the engine has. -/
  mirrors : d.inventory.Mirrors full d.machinery.engine.roster

namespace InLine

variable {full : Prop} {d : Deployment}

theorem new (repository : Option String) (files : FileTree) :
    (Deployment.new repository files).InLine full where
  honest _ _ f hf := absurd hf (Option.not_mem_none f)
  mirrors _ := .of_none rfl

theorem apply (h : d.InLine full) (fetched : Except FetchError FileTree) :
    (d.act (.apply fetched)).InLine full := by
  have hrun := (Pass.ensures_mirrors h.mirrors fetched).run
    (v := fun m : Machinery => m.engine.roster) Machinery.roster_reacts h.honest
  exact ⟨hrun.1, hrun.2⟩

/-- What is forgotten is not shown any more, so the engine may have more than the pool. -/
theorem reset (h : d.InLine full) (hfull : ¬full) : (d.act .reset).InLine full where
  honest := h.honest
  mirrors n := ⟨(h.mirrors n).named, nofun, fun hf => absurd hf hfull⟩

/-- An orderly act other than a pass leaves the nodes themselves as they are. -/
theorem roster_act (h : d.InLine full) {a : Act} (ha : a.Orderly)
    (hpass : ∀ fetched, a ≠ .apply fetched) :
    (d.act a).machinery.engine.roster = d.machinery.engine.roster := by
  cases a with
  | apply fetched => exact absurd rfl (hpass fetched)
  | call c => exact (h.honest.turn c).eq_of_isLifecycle ha
  | maintain => exact (d.seating_maintained d.pool.view).roster_eq
  | maintainOver view => exact (d.seating_maintained view).roster_eq
  | complete id =>
    change (d.completed id).2.engine.roster = _
    rcases d.release_completed id with ⟨b, -, hrel⟩ | ⟨-, -, he⟩
    · exact hrel.roster_eq
    · rw [he]
  | _ => rfl

theorem honest_act (h : d.InLine full) {a : Act} (ha : a.Orderly) :
    (d.act a).machinery.Honest := by
  cases a with
  | setFault kind name fault => exact h.honest.setFault ha
  | apply | maintain | maintainOver | complete =>
    exact h.honest.of_fault?_eq (Machinery.fault?_run _ _)
  | call c => exact h.honest.of_fault?_eq (Machinery.fault?_answer c _)
  | _ => exact h.honest

/-- An orderly act keeps the pool in line with the engine. -/
theorem act (h : d.InLine full) {a : Act} (ha : a.Orderly) (hreset : full → a ≠ .reset) :
    (d.act a).InLine full := by
  by_cases hpass : ∃ fetched, a = .apply fetched
  · obtain ⟨fetched, rfl⟩ := hpass
    exact h.apply fetched
  · by_cases hforget : a = .reset
    · subst hforget
      exact h.reset fun hf => hreset hf rfl
    · refine ⟨h.honest_act ha, ?_⟩
      rw [inventory_act (not_exists.mp hpass) hforget, h.roster_act ha (not_exists.mp hpass)]
      exact h.mirrors

/-- A run of orderly events keeps the pool in line with the engine. -/
theorem after (h : d.InLine full) {events : List Event} (he : ∀ e ∈ events, e.Orderly)
    (hreset : full → .reset ∉ events) : (d.after events).InLine full := by
  refine (leads_after d events).invariant (fun a d ⟨e, hmem, hpart⟩ hd => ?_) h
  refine hd.act (hpart.orderly (he e hmem)) ?_
  rintro hf rfl
  cases hpart
  exact hreset hf hmem

/-- The engine has what the pool shows. -/
theorem shown (h : d.InLine full) {n : NodeName} {node : ManagedNode}
    (hnode : d.inventory.find? n = some node) : node.name = n ∧ ∃ occupant,
      d.machinery.engine.nodes.find? n = some ⟨node.handle, node.definition, occupant⟩ := by
  have hname := h.mirrors n
  rw [hnode] at hname
  exact ⟨hname.name_eq, h.mirrors.exists_find? hnode⟩

end InLine

/-- **The pool mirrors the engine.** After every run of orderly events, each node of the pool is
listed under its own name, and the engine has it there in the same incarnation and with the same
definition. Without a reset the engine has no other nodes. -/
theorem inventory_mirrors (repository : Option String) (files : FileTree) (events : List Event)
    (he : ∀ e ∈ events, e.Orderly) :
    let d := (Deployment.new repository files).after events
    (∀ name node, d.inventory.find? name = some node →
      node.name = name ∧ node.handle.name = name ∧ ∃ occupant,
        d.machinery.engine.nodes.find? name = some ⟨node.handle, node.definition, occupant⟩) ∧
    (.reset ∉ events → d.inventory.keys = d.machinery.engine.nodes.keys) := by
  intro d
  have hd : d.InLine (.reset ∉ events) := (InLine.new repository files).after he id
  refine ⟨fun name node hnode => ?_, hd.mirrors.keys_eq⟩
  have hname := hd.mirrors name
  rw [hnode] at hname
  exact ⟨hname.name_eq, hname.handle_name_eq, hd.mirrors.exists_find? hnode⟩

end Deployment

namespace Sample

/-- A revision that declares the node. -/
def revision : FileTree :=
  .ofList [("config", "orchestrator.url=o"), ("nodes/n1.toml", "labels='a'")]

/-- What is read from the revision. -/
def snapshot : Snapshot :=
  ⟨.ofList [("orchestrator.url", "o")], ∅, .ofList [(node, definition)]⟩

set_option maxRecDepth 8000 in
theorem readNode_node :
    Snapshot.readNode "n1" "nodes/n1.toml" "labels='a'" = .ok (node, definition) := by
  have hname : Name.parse? .node "n1" = .ok node := Name.parse?_text node
  have htokens : Toml.Token.ofChars "labels='a'".toList =
      [.atom ['l', 'a', 'b', 'e', 'l', 's'], .equals, .text "a" false] := by decide
  have hparse : Toml.parse? "labels='a'" = some [("labels", .text "a")] := by
    rw [Toml.parse?, htokens]
    rfl
  have hmanifest : NodeDefinition.readManifest "labels='a'" = .ok definition := by
    rw [NodeDefinition.readManifest, Toml.read, hparse]
    rfl
  simp only [Snapshot.readNode, hname, hmanifest]
  rfl

theorem read_revision : Snapshot.read revision = .ok snapshot := by
  have hconfig : Snapshot.readConfig revision = .ok snapshot.config := by decide
  have hparties : Snapshot.manifests revision Repository.partiesDirectory = [] := by decide
  have hnodes : Snapshot.manifests revision Repository.nodesDirectory =
      [("n1", "nodes/n1.toml", "labels='a'")] := by decide
  simp only [Snapshot.read, hconfig, hparties, hnodes, List.foldlM_nil, List.foldlM_cons,
    Snapshot.addNode, readNode_node]
  rfl

end Sample

namespace Deployment

/-- A pass over the revision brings the node to the engine. -/
theorem nodes_keys_of_run :
    ((new (some "r") Sample.revision).after [.run]).machinery.engine.nodes.keys =
      [Sample.node] := by
  have hkeys : ((new (some "r") Sample.revision).after [.run]).inventory.keys = [Sample.node] := by
    simp only [after, List.foldl_cons, List.foldl_nil, step, run, new, pass, finish, carryOut,
      Hosting.fetch, Hosting.beginFetch, Hosting.new, Orchestrator.new]
    rw [Pass.run_of_read Sample.read_revision]
    rfl
  rw [← hkeys]
  exact ((inventory_mirrors (some "r") Sample.revision [.run] (by simp [Event.Orderly])).2
    (by simp)).symm

end Deployment

end NodeLending
