import Mathlib.Data.List.Induction
import NodeLending.Proofs.Pass.Race
import NodeLending.Proofs.Pool.Service

/-!
# Stray nodes

A pool that forgets everything loses sight of the nodes on the engine. A pass finds those of them
again that its revision declares, since they are there already when they are to be created. The
others it does not look for: such a node is neither removed nor listed, and stays astray until some
revision declares it.

This is the only way for a node to go astray. No pass, whether it fails or not, loses a node.

## Main definitions

* `Roster.Stray`, `Deployment.Stray`: the engine has a node that the pool does not have.

## Main results

* `Pass.ensures_stray`: which nodes are astray after a pass.
* `Deployment.stray_applied_iff`: which nodes are astray after a run that ends with a clean pass.
-/

namespace NodeLending

/-- The engine has a node that the pool does not have. -/
def Roster.Stray (ρ : Roster) (inventory : Inventory) (n : NodeName) : Prop :=
  ρ n ≠ none ∧ inventory.find? n = none

namespace Roster.Mirrors

variable {full : Prop} {ρ : Roster} {name : NodeName} {node : Option ManagedNode}

/-- What is in line is full under this name, on the condition that no node is astray there. -/
theorem full_self (h : ρ.Mirrors full name node) :
    ρ.Mirrors (node = none → ρ name = none) name node where
  named := h.named
  shown := h.shown
  full := id

end Roster.Mirrors

/-! ### Changes -/

namespace Change

variable {full : Prop} {ρ : Roster} {name : NodeName} {change : Change}

/-- A change that has come out well leaves no declared node missing, and none goes astray. -/
structure Outcome.Found (ρ : Roster) (name : NodeName) (change : Change) (o : Outcome)
    (x : Option (NodeHandle × NodeDefinition)) : Prop where
  /-- A declared node is not missing, unless something has gone wrong. -/
  present : change.declared?.isSome = true → o.failure = none → o.node ≠ none
  /-- A node that was not astray is not astray. -/
  kept : (change.before = none → ρ name = none) → o.node = none → x = none

theorem Outcome.Found.congr {ρ' : Roster} {o : Outcome} {x : Option (NodeHandle × NodeDefinition)}
    (h : o.Found ρ name change x) (heq : ρ' name = ρ name) : o.Found ρ' name change x :=
  ⟨h.present, heq ▸ h.kept⟩

theorem ensures_found (h : ρ.Mirrors full name change.before) :
    (change.carryOut name).Ensures Roster.Reacts
      (fun o ρ' => o.Found ρ name change (ρ' name) ∧ ∀ n ≠ name, ρ' n = ρ n) ρ := by
  have hname : ∀ m ∈ change.before, m.name = name := fun m hm => (h.shown m hm).1
  -- That the change keeps the name full on this condition says that no node goes astray there.
  refine ((ensures_mirrors h.full_self).and (ensures_proper hname ρ)).mono ?_
  rintro o ρ' ⟨hline, hproper⟩
  exact ⟨⟨hproper.present, hline.mirrors.full⟩, hline.frame⟩

end Change

/-! ### Passes -/

namespace Progress.Settled

variable {snapshot : Snapshot} {inventory : Inventory} {ρ ρ' : Roster} {p : Progress}
  {outcome : NodeName → Change.Outcome} {n : NodeName}

/-- A node that is astray in the end was so in the beginning, and it is not declared unless something
has gone wrong. -/
theorem stray_before
    (h : Settled (fun name change o x => o.Found ρ name change x)
      (Change.plan snapshot.nodes inventory) (.start inventory) ρ p ρ' outcome)
    (hn : ρ'.Stray p.inventory n) :
    ρ.Stray inventory n ∧ (p.failures = [] → snapshot.nodes.find? n = none) := by
  obtain ⟨hthere, hmissing⟩ := hn
  cases hc : Change.of? (snapshot.nodes.find? n) (inventory.find? n) with
  | none =>
    obtain ⟨hd, hi⟩ := Change.of?_eq_none_iff.mp hc
    rw [(h.of_none hd hi).2] at hthere
    exact ⟨⟨hthere, hi⟩, fun _ => hd⟩
  | some change =>
    obtain ⟨hbefore, hdeclared⟩ := Change.eq_of_of? hc
    obtain ⟨hfound, hnode⟩ := h.of_change hc
    -- The node has been left on the engine but not in the pool, so it was so before the change.
    have ho : (outcome n).node = none := hnode.symm.trans hmissing
    have hwas : ¬(change.before = none → ρ n = none) := fun hwas => hthere (hfound.kept hwas ho)
    rw [Classical.not_imp, ← hbefore] at hwas
    refine ⟨hwas.symm, fun hclean => ?_⟩
    rw [hdeclared]
    by_contra hsome
    exact hfound.present (Option.isSome_iff_ne_none.mpr hsome) (h.failure_eq_none hclean hc) ho

end Progress.Settled

namespace Pass

variable {full : Prop} {ρ : Roster}

theorem ensures_perform_stray {inventory : Inventory} (h : inventory.Mirrors full ρ)
    (snapshot : Snapshot) :
    (perform snapshot inventory).Ensures Roster.Reacts (fun p ρ' => ∀ n,
      (ρ'.Stray p.inventory n →
        ρ.Stray inventory n ∧ (p.failures = [] → snapshot.nodes.find? n = none)) ∧
      (ρ.Stray inventory n → snapshot.nodes.find? n = none → ρ'.Stray p.inventory n)) ρ := by
  refine (ensures_settled (v := fun ρ : Roster => ρ)
    (P := fun name change o x => o.Found ρ name change x)
    fun name change _ hbefore ρ₁ hρ₁ => ?_).mono ?_
  · have hname := (h name).congr hρ₁
    rw [hbefore] at hname
    exact (Change.ensures_found hname).mono fun o ρ' ho => ⟨ho.1.congr hρ₁.symm, ho.2⟩
  · rintro p ρ' ⟨outcome, hp⟩ n
    refine ⟨hp.stray_before, fun ⟨hthere, hmissing⟩ hd => ?_⟩
    obtain ⟨hnode, hshown⟩ := hp.of_none hd hmissing
    exact ⟨hshown ▸ hthere, hnode⟩

/-- No pass loses a node. One that does not fail leaves exactly those astray that were so before and
are not declared. -/
theorem ensures_stray {pool : Pool} (h : pool.view.inventory.Mirrors full ρ)
    (fetched : Except FetchError FileTree) :
    (run fetched pool).Ensures Roster.Reacts (fun x ρ' =>
      (∀ n, ρ'.Stray x.2.view.inventory n → ρ.Stray pool.view.inventory n) ∧
      ∀ report, x.1 = .ok report → ∃ s, x.2.view.snapshot = some s ∧ ∀ n,
        ρ'.Stray x.2.view.inventory n ↔
          ρ.Stray pool.view.inventory n ∧ s.nodes.find? n = none) ρ := by
  rw [run]
  split
  · refine ⟨fun _ hn => hn, fun report hok => ?_⟩
    cases hok
  · next snapshot _ =>
    rw [Dialogue.ensures_bind]
    refine (ensures_perform_stray h snapshot).mono fun p ρ' hp => ?_
    refine ⟨fun n hn => ((hp n).1 hn).1, fun report hok => ⟨snapshot, rfl, fun n => ?_⟩⟩
    have hclean : p.failures = [] := by
      rcases p.result_cases with ⟨hnil, -⟩ | ⟨-, first, herror⟩
      · exact hnil
      · cases herror.symm.trans hok
    refine ⟨fun hn => ⟨((hp n).1 hn).1, ((hp n).1 hn).2 hclean⟩, ?_⟩
    rintro ⟨hn, hd⟩
    exact (hp n).2 hn hd

end Pass

/-! ### Runs -/

namespace Deployment

/-- The engine has a node that the pool does not have. -/
def Stray (d : Deployment) (n : NodeName) : Prop :=
  d.machinery.engine.nodes.contains n = true ∧ d.inventory.contains n = false

variable {full : Prop} {d : Deployment} {n : NodeName}

instance : Decidable (d.Stray n) := inferInstanceAs (Decidable (_ ∧ _))

theorem stray_iff : d.Stray n ↔ d.machinery.engine.roster.Stray d.inventory n := by
  rw [Stray, Roster.Stray, ne_eq, LocalEngine.roster_eq_none_iff, Keyed.contains, Keyed.contains,
    Option.isSome_iff_ne_none, Option.isSome_eq_false_iff, Option.isNone_iff_eq_none]

/-- A pass follows the revision that it reads, if there is one. -/
theorem snapshot_apply (d : Deployment) (fetched : Except FetchError FileTree) :
    (d.act (.apply fetched)).pool.view.snapshot =
      (Pass.read fetched).toOption.or d.pool.view.snapshot := by
  rw [act, applied, Pass.run]
  cases Pass.read fetched with
  | error e => rfl
  | ok s =>
    dsimp only
    rw [Dialogue.run_bind]
    rfl

namespace InLine

/-- The pool is in line after a sequence of orderly acts. -/
theorem acts (h : d.InLine False) {l : List Act} (hl : ∀ a ∈ l, a.Orderly) :
    (d.acts l).InLine False :=
  acts_induction (fun _ _ ha hd => hd.act ha False.elim) hl h

theorem stray_applied (h : d.InLine full) (fetched : Except FetchError FileTree) :
    (∀ n, (d.act (.apply fetched)).Stray n → d.Stray n) ∧
    ∀ report, (d.applied fetched).1.1 = .ok report →
      ∃ s, (d.act (.apply fetched)).pool.view.snapshot = some s ∧ ∀ n,
        (d.act (.apply fetched)).Stray n ↔ d.Stray n ∧ s.nodes.find? n = none := by
  simp only [stray_iff]
  exact ((Pass.ensures_stray h.mirrors fetched).run (v := fun m : Machinery => m.engine.roster)
    Machinery.roster_reacts h.honest).2

/-- No orderly act other than a reset loses a node. -/
theorem stray_act (h : d.InLine full) {a : Act} (ha : a.Orderly) (hreset : a ≠ .reset)
    (hn : (d.act a).Stray n) : d.Stray n := by
  by_cases hpass : ∃ fetched, a = .apply fetched
  · obtain ⟨fetched, rfl⟩ := hpass
    exact (h.stray_applied fetched).1 n hn
  · rw [stray_iff, h.roster_act ha (not_exists.mp hpass),
      inventory_act (not_exists.mp hpass) hreset] at hn
    exact stray_iff.mpr hn

end InLine

/-- A node that is astray has been so ever since a reset. -/
theorem stray_acts_iff (repository : Option String) (files : FileTree) {l : List Act}
    (hl : ∀ a ∈ l, a.Orderly) :
    ((new repository files).acts l).Stray n ↔
      ∃ before after, l = before ++ .reset :: after ∧ ∀ part, part <+: after →
        ((new repository files).acts (before ++ .reset :: part)).Stray n := by
  constructor
  · intro h
    -- From the end of the run: the last act is the reset, or the node was astray before it.
    induction l using List.reverseRecOn with
    | nil => exact absurd h.1 Bool.false_ne_true
    | append_singleton l a ih =>
      obtain ⟨hl, ha⟩ := List.forall_mem_append.mp hl
      by_cases hreset : a = .reset
      · subst hreset
        refine ⟨l, [], rfl, fun part hpart => ?_⟩
        rw [List.prefix_nil.mp hpart]
        exact h
      · have hbefore : ((new repository files).acts l).Stray n := by
          refine ((InLine.new repository files).acts hl).stray_act (ha a List.mem_cons_self) hreset ?_
          rw [acts_append] at h
          exact h
        obtain ⟨before, after, rfl, hafter⟩ := ih hl hbefore
        refine ⟨before, after ++ [a], by simp, fun part hpart => ?_⟩
        rcases List.prefix_concat_iff.mp hpart with rfl | hpart
        · simpa using h
        · exact hafter part hpart
  · rintro ⟨before, after, rfl, hafter⟩
    exact hafter after (List.prefix_refl after)

/-- **Nodes go astray at a reset only.** When a pass does not fail after a run of orderly acts, the
engine has a node that the pool does not have exactly when that node has been astray ever since some
reset and the revision of the pass does not declare it. -/
theorem stray_applied_iff (repository : Option String) (files : FileTree) {l : List Act}
    (hl : ∀ a ∈ l, a.Orderly) {fetched : Except FetchError FileTree} {report : PassReport}
    (hok : (((new repository files).acts l).applied fetched).1.1 = .ok report) :
    let d := ((new repository files).acts l).act (.apply fetched)
    ∃ s, d.pool.view.snapshot = some s ∧ ∀ n, d.Stray n ↔ s.nodes.find? n = none ∧
      ∃ before after, l = before ++ .reset :: after ∧ ∀ part, part <+: after →
        ((new repository files).acts (before ++ .reset :: part)).Stray n := by
  intro d
  have hline := (InLine.new repository files).acts hl
  obtain ⟨s, hs, hstray⟩ := (hline.stray_applied fetched).2 report hok
  refine ⟨s, hs, fun n => (hstray n).trans ?_⟩
  rw [stray_acts_iff repository files hl, and_comm]

/-- The node is brought to the engine, and the pool forgets it. -/
def forgetting : List Act := [.apply (.ok Sample.revision), .reset]

/-- A pass over a revision that does not declare the node leaves it astray. -/
theorem stray_of_reset_undeclared :
    (((new none .empty).acts forgetting).act (.apply (.ok Sample.bareRevision))).Stray
      Sample.node := by
  have hreset : ((new none .empty).acts forgetting).Stray Sample.node := by
    simp only [acts, forgetting, List.foldl_cons, List.foldl_nil, act, applied]
    rw [Pass.run_of_read Sample.read_revision]
    decide
  have hok : (((new none .empty).acts forgetting).applied (.ok Sample.bareRevision)).1.1 =
      .ok {} := by
    simp only [acts, forgetting, List.foldl_cons, List.foldl_nil, act, applied]
    rw [Pass.run_of_read Sample.read_revision, Pass.run_of_read Sample.read_bareRevision]
    decide
  obtain ⟨s, hs, hstray⟩ :=
    stray_applied_iff none .empty (l := forgetting) (by simp [forgetting, Act.Orderly]) hok
  rw [snapshot_apply, Pass.read, Sample.read_bareRevision] at hs
  obtain rfl := Option.some.inj hs
  refine (hstray Sample.node).mpr
    ⟨by decide, [.apply (.ok Sample.revision)], [], rfl, fun part hpart => ?_⟩
  rw [List.prefix_nil.mp hpart]
  exact hreset

/-- The node is taken before the pool forgets it. -/
def abandoning : List Act :=
  [.apply (.ok Sample.revision), .enqueue Sample.party (.atom "a"), .maintain, .reset]

/-- A pass does not fail, and yet the engine goes on to have a node in use that the pool does not
have. -/
theorem stray_of_reset_used :
    (((new none .empty).acts abandoning).applied (.ok Sample.bareRevision)).1.1 = .ok {} ∧
      (((new none .empty).acts abandoning).act (.apply (.ok Sample.bareRevision))).Stray
        Sample.node ∧
      (((new none .empty).acts abandoning).act
        (.apply (.ok Sample.bareRevision))).machinery.engine.occupant? Sample.node = some ⟨1⟩ := by
  simp only [acts, abandoning, List.foldl_cons, List.foldl_nil, act, applied]
  rw [Pass.run_of_read Sample.read_revision, Pass.run_of_read Sample.read_bareRevision]
  decide

end Deployment

end NodeLending
