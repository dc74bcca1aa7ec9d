import NodeLending.Proofs.Deployment.Incarnation
import NodeLending.Proofs.Pass.Isolation
import NodeLending.Proofs.Repository.Renaming
import NodeLending.Proofs.Reservation.Draining

/-!
# Passes after a node has got another name

When a node gets another name in the repository, a pass takes it for two nodes: one that is not
declared any more and one that is declared for the first time. The former is removed, or waits to be
removed while it is in use, and the latter is created. If there is still a node under the other name
that waits to be removed, it comes back into service instead. The other nodes stay as they are.

## Main definitions

* `Change.Held`: a change has not lost a declared node.
* `Deployment.Follows`: the pool follows a revision and has the nodes that it declares.
* `Deployment.Renamed`: what a pass makes of a node that has got another name.

## Main results

* `Change.Course.of_create`, `Change.Course.of_declared`, `Change.Course.of_retire_of_busy`: what
  comes of a change on an engine that does not fail.
* `Deployment.follows_apply`, `Deployment.Follows.acts`: after a pass over a revision that has not
  failed the pool follows it, as long as no other one is read.
* `Deployment.find?_apply_of_create`, `Deployment.find?_apply_of_declared`,
  `Deployment.find?_apply_of_retire`: what a pass over a sound engine makes of a node.
* `Deployment.pass_renamed`: a pass after a node has got another name.
-/

namespace NodeLending

open Engine (Call)

/-! ### Changes on an engine that does not fail -/

namespace Change

variable {name : NodeName} {node : ManagedNode} {change : Change} {d : NodeDefinition}
  {x : EngineNode} {o : Outcome} {y : Option EngineNode} {called : Bool}

/-- A node that the engine does not have is created as it is declared. -/
theorem Course.of_create (h : Course none name (create d) none o y called) :
    ∃ k, y = some ⟨⟨name, k⟩, d, none⟩ ∧ o.node = some ⟨name, d, ⟨name, k⟩, .active⟩ := by
  cases h with
  | created _ k => exact ⟨k, rfl, rfl⟩
  | creationFailed hwhy => cases hwhy

/-- A declared node that is there is in service, and is defined as it is declared unless it is in
use. -/
theorem Course.of_declared {removal : Removal} (h : Course none name change (some x) o y called)
    (hbefore : change.before = some ⟨name, x.definition, x.handle, removal⟩)
    (hdeclared : change.declared? = some d) :
    let applied := if x.occupant = none then d else x.definition
    y = some { x with definition := applied } ∧
      o.node = some ⟨name, applied, x.handle, .active⟩ := by
  intro applied
  cases h with
  | kept node =>
    obtain rfl := Option.some.inj hbefore
    obtain rfl : x.definition = d := Option.some.inj hdeclared
    have hd : applied = x.definition := ite_self _
    rw [hd]
    exact ⟨rfl, rfl⟩
  | applied h =>
    obtain rfl := Option.some.inj hbefore
    obtain rfl := Option.some.inj hdeclared
    cases h with
    | deferred hbusy =>
      have hd : applied = x.definition := if_neg hbusy
      rw [hd]
      exact ⟨rfl, rfl⟩
    | updated _ hidle =>
      have hd : applied = _ := if_pos hidle
      rw [hd]
      exact ⟨rfl, rfl⟩
    | failed hwhy => cases hwhy
  | creationFailed hwhy | removalFailed hwhy => cases hwhy
  | adopted | adoptedApplied => cases hbefore
  | parked | removed => cases hdeclared

/-- A node that is in use waits to be removed. -/
theorem Course.of_retire_of_busy (h : Course none name (retire node) (some x) o y called)
    (hbusy : x.occupant ≠ none) :
    o.node = some { node with removal := .pending } ∧ y = some x := by
  cases h with
  | parked => exact ⟨rfl, rfl⟩
  | removed _ hidle => exact absurd hidle hbusy
  | removalFailed hwhy => cases hwhy

end Change

/-! ### Declared nodes stay -/

/-- The pool has a declared node after a change if it had the node before, and also if nothing has
gone wrong. -/
def Change.Held (change : Change) (o : Change.Outcome) : Prop :=
  change.declared? ≠ none → change.before ≠ none ∨ o.failure = none → o.node ≠ none

section Held

variable {σ : Type} {T : Dialogue.Reaction Call Call.Answer σ} {name : NodeName}

theorem Change.ensures_applyDefinition_held (node : ManagedNode) (d : NodeDefinition) (s : σ) :
    (applyDefinition node d).Ensures T (fun o _ => o.node ≠ none) s := by
  intro idle s₁ _
  cases idle with
  | false => exact Option.some_ne_none _
  | true =>
    intro a s₂ _
    cases a with
    | ok handle => exact Option.some_ne_none _
    | error err => cases err <;> exact Option.some_ne_none _

/-- No change loses a declared node. -/
theorem Change.ensures_held (change : Change) (s : σ) :
    (change.carryOut name).Ensures T (fun o _ => change.Held o) s := by
  cases change with
  | keep node => exact fun _ _ => Option.some_ne_none _
  | create d =>
    refine (ensures_bring_proper d s).mono fun o _ ho _ h => ho.present rfl ?_
    exact h.resolve_left fun hbefore => hbefore rfl
  | redefine node d =>
    rw [carryOut, Dialogue.ensures_bind]
    exact (ensures_applyDefinition_held _ d s).mono fun o _ ho _ _ => ho
  | retire node => exact .of_forall (fun _ _ hd => absurd rfl hd) _ s

/-- No pass loses a declared node either, and one that has not failed brings it. -/
theorem Pass.ensures_held {fetched : Except FetchError FileTree} {snapshot : Snapshot}
    (hread : read fetched = .ok snapshot) (pool : Pool) {n : NodeName}
    (hn : snapshot.nodes.find? n ≠ none) (s : σ) :
    (run fetched pool).Ensures T (fun x _ =>
      pool.view.inventory.find? n ≠ none ∨ (∃ report, x.1 = .ok report) →
        x.2.view.inventory.find? n ≠ none) s := by
  rw [run, hread]
  dsimp only
  rw [Dialogue.ensures_bind]
  refine (ensures_settled (v := fun _ _ => ()) (P := fun _ change o _ => change.Held o)
    (fun name change _ _ s₁ _ => ?_)).mono ?_
  · exact (change.ensures_held s₁).mono fun o _ ho => ⟨ho, fun _ _ => rfl⟩
  · rintro p s' ⟨outcome, h⟩ hor
    cases hc : Change.of? (snapshot.nodes.find? n) (pool.view.inventory.find? n) with
    | none => exact absurd (Change.of?_eq_none_iff.mp hc).1 hn
    | some change =>
      obtain ⟨hheld, hnode⟩ := h.of_change hc
      obtain ⟨hbefore, hdeclared⟩ := Change.eq_of_of? hc
      change p.inventory.find? n ≠ none
      rw [hnode]
      refine hheld (hdeclared ▸ hn) ?_
      rcases hor with hi | ⟨report, hok⟩
      · exact .inl (hbefore ▸ hi)
      · rcases p.result_cases with ⟨hclean, -⟩ | ⟨-, first, herror⟩
        · exact .inr (h.failure_eq_none hclean hc)
        · rw [herror] at hok
          cases hok

end Held

namespace Deployment

variable {full : Prop} {d : Deployment} {s : Snapshot} {tree : FileTree}

/-- The pool follows a revision and has the nodes that it declares. -/
structure Follows (d : Deployment) (s : Snapshot) : Prop where
  /-- The pool follows the revision. -/
  snapshot : d.pool.view.snapshot = some s
  /-- The pool has the nodes that the revision declares. -/
  holds : ∀ n, s.nodes.find? n ≠ none → d.inventory.find? n ≠ none

/-- After a pass over a revision the pool follows it, if it did so before or nothing has gone
wrong. -/
theorem follows_apply {fetched : Except FetchError FileTree} (hread : Pass.read fetched = .ok s)
    (h : d.Follows s ∨ ∃ report, (d.applied fetched).1.1 = .ok report) :
    (d.act (.apply fetched)).Follows s where
  snapshot := by
    rw [snapshot_apply, hread]
    rfl
  holds n hn := by
    have hheld := Dialogue.ensures_answer.mp (Pass.ensures_held
      (T := fun c (m : Machinery) a m' => m.answer c = (a, m')) hread d.pool hn d.machinery)
    exact hheld (h.imp_left fun hd => hd.holds n hn)

namespace Follows

theorem act (h : d.Follows s) {a : Act} (hreset : a ≠ .reset)
    (hread : ∀ fetched s', a = .apply fetched → Pass.read fetched = .ok s' → s' = s) :
    (d.act a).Follows s := by
  cases a with
  | apply fetched =>
    cases hf : Pass.read fetched with
    | ok s' =>
      obtain rfl := hread fetched s' rfl hf
      exact follows_apply hf (.inl h)
    | error e =>
      have hpool : (d.act (.apply fetched)).pool.view = d.pool.view := by
        rw [Deployment.act, applied, Pass.run, hf]
        rfl
      exact ⟨hpool ▸ h.snapshot, by rw [inventory, hpool]; exact h.holds⟩
  | reset => exact absurd rfl hreset
  | _ => exact ⟨h.snapshot, h.holds⟩

/-- As long as no other revision is read, the pool follows the revision. -/
theorem acts (h : d.Follows s) {l : List Act} (hreset : .reset ∉ l)
    (hread : ∀ fetched s', .apply fetched ∈ l → Pass.read fetched = .ok s' → s' = s) :
    (d.acts l).Follows s := by
  refine acts_induction (P := (· ∈ l)) (I := (·.Follows s)) (fun a d ha hd => hd.act ?_ ?_)
    (fun _ ha => ha) h
  · exact fun heq => hreset (heq ▸ ha)
  · exact fun fetched s' heq => hread fetched s' (heq ▸ ha)

/-- The engine has the nodes that the revision declares. -/
theorem find?_ne_none (h : d.Follows s) (hd : d.InLine full) {n : NodeName}
    (hn : s.nodes.find? n ≠ none) : d.machinery.engine.nodes.find? n ≠ none := by
  obtain ⟨node, hnode⟩ := Option.ne_none_iff_exists'.mp (h.holds n hn)
  obtain ⟨occupant, hx⟩ := hd.mirrors.exists_find? hnode
  rw [hx]
  exact Option.some_ne_none _

/-- What else the engine has waits to be removed. -/
theorem find?_of_undeclared (h : d.Follows s) (hd : d.Reachable True) {n : NodeName}
    (hn : s.nodes.find? n = none) {x : EngineNode}
    (hx : d.machinery.engine.nodes.find? n = some x) :
    d.inventory.find? n = some ⟨n, x.definition, x.handle, .pending⟩ := by
  obtain ⟨removal, hi⟩ := hd.inLine.mirrors.exists_removal trivial hx
  have hdue : removal = .due (s.nodes.contains n) := (hd.inService.due s h.snapshot n _ hi).2
  have hpending : removal = .pending := by
    rw [hdue, Keyed.contains, hn]
    rfl
  rw [hi, hpending]

end Follows

/-! ### Passes over a sound engine -/

section Sound

variable {n : NodeName} {definition : NodeDefinition} {x : EngineNode}
  (hsound : d.machinery.Sound) (hread : Snapshot.read tree = .ok s)

include hsound hread

theorem exists_report (h : d.InLine full) : ∃ report, (d.applied (.ok tree)).1.1 = .ok report := by
  obtain ⟨p, outcome, heq, hp⟩ := applied_coursed h hsound.suffers hread
  rw [heq]
  refine hp.result_cases.1 (Finset.eq_empty_of_forall_notMem fun n hn => ?_)
  cases (Breakdown.mem_called.mp hn).1

/-- A declared node that is not there is created. -/
theorem find?_apply_of_create (h : d.InLine full) (hn : s.nodes.find? n = some definition)
    (hx : d.machinery.engine.nodes.find? n = none) :
    let d' := d.act (.apply (.ok tree))
    ∃ k, d'.machinery.engine.nodes.find? n = some ⟨⟨n, k⟩, definition, none⟩ ∧
      d'.inventory.find? n = some ⟨n, definition, ⟨n, k⟩, .active⟩ := by
  intro d'
  have hchange : Change.of? (s.nodes.find? n) (d.inventory.find? n) =
      some (.create definition) := by
    rw [hn, h.mirrors.find?_eq_none hx]
    rfl
  obtain ⟨o, called, hcourse, hnode⟩ := course_applied h hsound hread hchange
  rw [hx] at hcourse
  rw [hnode]
  exact hcourse.of_create

variable (h : d.InLine True) (hx : d.machinery.engine.nodes.find? n = some x)

include h hx

/-- A declared node that is there is in service, and is defined as it is declared unless it is in
use. -/
theorem find?_apply_of_declared (hn : s.nodes.find? n = some definition) :
    let d' := d.act (.apply (.ok tree))
    let applied := if x.occupant = none then definition else x.definition
    d'.machinery.engine.nodes.find? n = some { x with definition := applied } ∧
      d'.inventory.find? n = some ⟨n, applied, x.handle, .active⟩ := by
  intro d' applied
  obtain ⟨removal, hi⟩ := h.mirrors.exists_removal trivial hx
  obtain ⟨change, hchange⟩ : ∃ change,
      Change.of? (s.nodes.find? n) (d.inventory.find? n) = some change := by
    rw [hn, hi]
    exact ⟨_, rfl⟩
  obtain ⟨hbefore, hdeclared⟩ := Change.eq_of_of? hchange
  obtain ⟨o, called, hcourse, hnode⟩ := course_applied h hsound hread hchange
  rw [hx] at hcourse
  rw [hnode]
  exact hcourse.of_declared (hbefore.symm.trans hi) (hdeclared.symm.trans hn)

/-- A node that is not declared is removed, or waits to be removed while it is in use. -/
theorem find?_apply_of_retire (hn : s.nodes.find? n = none) :
    let d' := d.act (.apply (.ok tree))
    (x.occupant = none →
      d'.machinery.engine.nodes.find? n = none ∧ d'.inventory.find? n = none) ∧
    (x.occupant ≠ none → d'.machinery.engine.nodes.find? n = some x ∧
      d'.inventory.find? n = some ⟨n, x.definition, x.handle, .pending⟩) := by
  intro d'
  obtain ⟨removal, hi⟩ := h.mirrors.exists_removal trivial hx
  have hchange : Change.of? (s.nodes.find? n) (d.inventory.find? n) =
      some (.retire ⟨n, x.definition, x.handle, removal⟩) := by
    rw [hn, hi]
    rfl
  obtain ⟨o, called, hcourse, hnode⟩ := course_applied h hsound hread hchange
  rw [hx] at hcourse
  rw [hnode]
  exact ⟨fun hidle => (hcourse.of_retire hidle).symm,
    fun hbusy => (hcourse.of_retire_of_busy hbusy).symm⟩

end Sound

/-! ### Another name -/

/-- What a pass makes of a node that has got another name. -/
structure Renamed (s : Snapshot) (old new : NodeName) (definition : NodeDefinition)
    (d d' : Deployment) : Prop where
  /-- A node that is not there under the other name is created. -/
  created : d.machinery.engine.nodes.find? new = none → ∃ k,
    d'.machinery.engine.nodes.find? new = some ⟨⟨new, k⟩, definition, none⟩ ∧
      d'.inventory.find? new = some ⟨new, definition, ⟨new, k⟩, .active⟩
  /-- A node that is still there under the other name is in service again. It keeps its handle, and
  while it is in use its definition as well. -/
  reactivated : ∀ x, d.machinery.engine.nodes.find? new = some x →
    let applied := if x.occupant = none then definition else x.definition
    d'.machinery.engine.nodes.find? new = some { x with definition := applied } ∧
      d'.inventory.find? new = some ⟨new, applied, x.handle, .active⟩
  /-- Under the old name an idle node is removed. -/
  removed : ∀ x, d.machinery.engine.nodes.find? old = some x → x.occupant = none →
    d'.machinery.engine.nodes.find? old = none ∧ d'.inventory.find? old = none
  /-- Under the old name a node that is in use stays as it is and waits to be removed. -/
  parked : ∀ x, d.machinery.engine.nodes.find? old = some x → x.occupant ≠ none →
    d'.machinery.engine.nodes.find? old = some x ∧
      d'.inventory.find? old = some ⟨old, x.definition, x.handle, .pending⟩
  /-- The other declared nodes keep their handles and their users. -/
  kept : ∀ n ≠ old, s.nodes.find? n ≠ none → ∀ x, d.machinery.engine.nodes.find? n = some x →
    ∃ x', d'.machinery.engine.nodes.find? n = some x' ∧ x'.handle = x.handle ∧
      x'.occupant = x.occupant
  /-- The reservations stay as they are. -/
  queue : d'.queue = d.queue

variable {old new : NodeName} {definition : NodeDefinition}

theorem renamed_apply (h : d.InLine True) (hsound : d.machinery.Sound)
    (hread : Snapshot.read tree = .ok (s.replaceNode old new definition)) (hne : old ≠ new)
    (hnew : s.nodes.find? new = none) :
    d.Renamed s old new definition (d.act (.apply (.ok tree))) := by
  have hfind : ∀ n, (s.replaceNode old new definition).nodes.find? n = _ :=
    Snapshot.find?_replaceNode
  have hcreated : (s.replaceNode old new definition).nodes.find? new = some definition :=
    (hfind new).trans (if_pos rfl)
  have hretired : (s.replaceNode old new definition).nodes.find? old = none := by
    rw [hfind, if_neg hne, if_pos rfl]
  constructor
  · exact find?_apply_of_create hsound hread h hcreated
  · exact fun x hx => find?_apply_of_declared hsound hread h hx hcreated
  · exact fun x hx => (find?_apply_of_retire hsound hread h hx hretired).1
  · exact fun x hx => (find?_apply_of_retire hsound hread h hx hretired).2
  · intro n hold hn x hx
    obtain ⟨definition', hdeclared⟩ := Option.ne_none_iff_exists'.mp hn
    have hnn : n ≠ new := fun heq => hn (heq ▸ hnew)
    have hsame : (s.replaceNode old new definition).nodes.find? n = some definition' := by
      rw [hfind, if_neg hnn, if_neg hold, hdeclared]
    exact ⟨_, (find?_apply_of_declared hsound hread h hx hsame).1, rfl, rfl⟩
  · rfl

/-- **Another name.** The manifest of a declared node is moved to a name under which there is none.
The repository can be read as before, and declares the node under the other name. Consider a run in
which the pool forgets nothing and a pass over the repository as it was before has not failed. As
long as no other revision has been read since, the engine has all nodes that the repository
declared, and if it has a node under the other name, this one waits to be removed. A pass over a
sound engine does not fail, whatever nodes are in use. It creates a node under the other name, in a
later incarnation than any node has had, or brings the one that is still there back into service.
Under the old name the node is removed, or waits to be removed while it is in use. The other
declared nodes keep their handles and their users. -/
theorem pass_renamed (hread : Snapshot.read tree = .ok s)
    (hold : s.nodes.find? old = some definition)
    (hnew : tree.content? (Draft.nodePath new.text) = none) (repository : Option String)
    (files : FileTree) {before later : List Act}
    (hacts : ∀ a ∈ before ++ later, a.Orderly ∧ a ≠ .reset)
    (hok : ∃ report,
      (((Deployment.new repository files).acts before).applied (.ok tree)).1.1 = .ok report) :
    let renamed := Draft.renameNode tree old.text new.text
    let run := before ++ .apply (.ok tree) :: later
    let d := (Deployment.new repository files).acts run
    let d' := d.act (.apply (.ok renamed))
    Snapshot.read renamed = .ok (s.replaceNode old new definition) ∧
    ((∀ fetched s', .apply fetched ∈ later → Pass.read fetched = .ok s' → s' = s) →
      (∀ n, s.nodes.find? n ≠ none → d.machinery.engine.nodes.find? n ≠ none) ∧
      ∀ x, d.machinery.engine.nodes.find? new = some x →
        d.inventory.find? new = some ⟨new, x.definition, x.handle, .pending⟩) ∧
    (d.machinery.Sound →
      (∃ report, (d.applied (.ok renamed)).1.1 = .ok report) ∧
      d.Renamed s old new definition d' ∧
      (d.machinery.engine.nodes.find? new = none →
        Movement.arrivals
          ((Deployment.new repository files).history (run ++ [.apply (.ok renamed)])) < 2 ^ 64 →
        ∀ x', d'.machinery.engine.nodes.find? new = some x' → ∀ l, l <+: run → ∀ n x,
          ((Deployment.new repository files).acts l).machinery.engine.nodes.find? n = some x →
            x.handle.incarnation < x'.handle.incarnation)) := by
  intro renamed run d d'
  have hrenamed : Snapshot.read renamed = .ok (s.replaceNode old new definition) :=
    Snapshot.read_renameNode hread hold
  have hnone : s.nodes.find? new = none := Snapshot.find?_eq_none_of_content? hread hnew
  have hne : old ≠ new := by
    rintro rfl
    rw [hold] at hnone
    cases hnone
  have hrun : ∀ a ∈ run, a.Orderly ∧ a ≠ .reset := by
    simp only [run, List.mem_append, List.mem_cons] at hacts ⊢
    rintro a (ha | rfl | ha)
    · exact hacts a (.inl ha)
    · exact ⟨trivial, nofun⟩
    · exact hacts a (.inr ha)
  have hd : d.Reachable True :=
    (Reachable.new repository files).acts (fun a ha => (hrun a ha).1) fun _ ha => (hrun _ ha).2 rfl
  refine ⟨hrenamed, fun honly => ?_, fun hsound => ⟨?_, ?_, ?_⟩⟩
  · have hfollows : d.Follows s := by
      rw [show d = _ from acts_append _ before _]
      refine (follows_apply ?_ (.inr hok)).acts (fun hreset => ?_) honly
      · rw [Pass.read, hread]
        rfl
      · exact (hacts _ (List.mem_append_right _ hreset)).2 rfl
    exact ⟨fun _ => hfollows.find?_ne_none hd.inLine,
      fun _ => hfollows.find?_of_undeclared hd hnone⟩
  · exact exists_report hsound hrenamed hd.inLine
  · exact renamed_apply hd.inLine hsound hrenamed hne hnone
  · exact fun hx hk x' hx' l hl n x => incarnation_lt repository files hk hx hx' hl

/-- Another name. -/
def otherName : NodeName := ⟨"n2", by decide⟩

/-- The node is taken. -/
def taking : List Act := [.enqueue Sample.party (.atom "a"), .maintain]

/-- The node gets another name while it is in use: it stays as it is, and there is a new one. -/
theorem find?_renamed_while_used :
    let d := (Deployment.new none .empty).acts (.apply (.ok Sample.revision) :: taking)
    let d' := d.act (.apply (.ok (Draft.renameNode Sample.revision "n1" "n2")))
    d'.machinery.engine.nodes.find? Sample.node =
        some ⟨Sample.handle, Sample.definition, some ⟨1⟩⟩ ∧
      ∃ k, d'.machinery.engine.nodes.find? otherName =
          some ⟨⟨otherName, k⟩, Sample.definition, none⟩ ∧
        d'.inventory.find? otherName =
          some ⟨otherName, Sample.definition, ⟨otherName, k⟩, .active⟩ := by
  intro d d'
  have hrun : (∃ report, (((Deployment.new none .empty).acts []).applied
        (.ok Sample.revision)).1.1 = .ok report) ∧
      d.machinery.engine.nodes.find? Sample.node =
        some ⟨Sample.handle, Sample.definition, some ⟨1⟩⟩ ∧
      d.machinery.engine.nodes.find? otherName = none ∧ d.machinery.Sound := by
    simp only [d, acts, taking, List.foldl_cons, List.foldl_nil, act, applied]
    rw [Pass.run_of_read Sample.read_revision]
    exact ⟨⟨{ created := 1 }, by decide⟩, by decide, by decide, fun _ _ => rfl, rfl⟩
  obtain ⟨hok, hbusy, hfree, hsound⟩ := hrun
  have hold : Sample.snapshot.nodes.find? Sample.node = some Sample.definition := rfl
  have hnew : Sample.revision.content? (Draft.nodePath otherName.text) = none := by decide
  have hacts : ∀ a ∈ [] ++ taking, a.Orderly ∧ a ≠ .reset := by simp [taking, Act.Orderly]
  have hrenamed : Renamed Sample.snapshot Sample.node otherName Sample.definition d d' :=
    ((pass_renamed Sample.read_revision hold hnew none .empty hacts hok).2.2 hsound).2.1
  exact ⟨(hrenamed.parked _ hbusy (Option.some_ne_none _)).1, hrenamed.created hfree⟩

end Deployment

end NodeLending
