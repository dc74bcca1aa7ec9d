import NodeLending.Proofs.Engine.Breakdown
import NodeLending.Proofs.Pass.Settled
import NodeLending.Proofs.Pool.Mirror

/-!
# The course of a change

When a pass has no rivals, a change takes one of a few courses. Which one depends on what the engine
has under the name, on whether the node is in use, and on whether the engine fails for it. All
courses are listed here once, with the outcome, with what the engine has in the end, and with
whether the engine has been called to create, redefine or remove the node.

## Main definitions

* `Change.Applied`, `Change.Course`: the courses of a redefinition and of a change.

## Main results

* `Change.ensures_course`: the list is complete.
* `Deployment.applied_coursed`, `Deployment.course_applied`: a pass without rivals takes, under each
  name, one of the courses.
-/

namespace NodeLending

open Engine (Call)

namespace Change

/-! ### Courses -/

/-- The courses of the redefinition of a node that the engine has. -/
inductive Applied (why : Option (Call.Kind → String)) (node : ManagedNode) (d : NodeDefinition)
    (x : EngineNode) : Outcome → EngineNode → Bool → Prop
  | deferred (hbusy : x.occupant ≠ none) : Applied why node d x ⟨some node, { deferred := 1 }, none⟩
      x false
  | updated (hwhy : why = none) (hidle : x.occupant = none) : Applied why node d x
      ⟨some { node with definition := d, handle := x.handle }, { updated := 1 }, none⟩
      { x with definition := d } true
  | failed {reason : Call.Kind → String} (hwhy : why = some reason) (hidle : x.occupant = none) :
      Applied why node d x
        ⟨some node, {},
          some s!"update '{node.name.text}': {(EngineError.failed (reason .update)).message}"⟩
        x true

/-- The courses of a change under a name: what the engine has there, the outcome, what the engine
has there in the end, and whether it has been called to create, redefine or remove the node. -/
inductive Course (why : Option (Call.Kind → String)) (name : NodeName) :
    Change → Option EngineNode → Outcome → Option EngineNode → Bool → Prop
  | kept (node : ManagedNode) (x : Option EngineNode) : Course why name (keep node) x
      ⟨some (declare node), { unchanged := 1 } + reactivation node, none⟩ x false
  | created {d : NodeDefinition} (hwhy : why = none) (k : UInt64) :
      Course why name (create d) none ⟨some ⟨name, d, ⟨name, k⟩, .active⟩, { created := 1 }, none⟩
        (some ⟨⟨name, k⟩, d, none⟩) true
  | creationFailed {d : NodeDefinition} {reason : Call.Kind → String} (hwhy : why = some reason)
      (x : Option EngineNode) : Course why name (create d) x
        ⟨none, {}, some s!"create '{name.text}': {(EngineError.failed (reason .create)).message}"⟩
        x true
  | adopted {d : NodeDefinition} {x : EngineNode} (hwhy : why = none) (heq : x.definition = d) :
      Course why name (create d) (some x)
        ⟨some ⟨name, x.definition, x.handle, .active⟩, { adopted := 1 }, none⟩ (some x) true
  | adoptedApplied {d : NodeDefinition} {x x' : EngineNode} {o : Outcome} {called : Bool}
      (hwhy : why = none) (hne : x.definition ≠ d)
      (h : Applied why ⟨name, x.definition, x.handle, .active⟩ d x o x' called) :
      Course why name (create d) (some x) { o with report := { adopted := 1 } + o.report }
        (some x') true
  | applied {node : ManagedNode} {d : NodeDefinition} {x x' : EngineNode} {o : Outcome}
      {called : Bool} (h : Applied why (declare node) d x o x' called) :
      Course why name (redefine node d) (some x)
        { o with report := reactivation node + o.report } (some x') called
  | parked {node : ManagedNode} {x : EngineNode} (hbusy : x.occupant ≠ none) :
      Course why name (retire node) (some x)
        ⟨some { node with removal := .pending }, { pendingRemoval := 1 }, none⟩ (some x) false
  | removed {node : ManagedNode} {x : EngineNode} (hwhy : why = none) (hidle : x.occupant = none) :
      Course why name (retire node) (some x) ⟨none, { removed := 1 }, none⟩ none true
  | removalFailed {node : ManagedNode} {x : EngineNode} {reason : Call.Kind → String}
      (hwhy : why = some reason) (hidle : x.occupant = none) :
      Course why name (retire node) (some x)
        ⟨some { node with removal := .pending }, { pendingRemoval := 1 },
          some s!"remove '{name.text}': {(EngineError.failed (reason .remove)).message}"⟩
        (some x) true

/-! ### Every change takes one of the courses -/

open Breakdown (Reaches)

variable {full : Prop} {b : Breakdown} {name : NodeName} {node : ManagedNode} {x : EngineNode}
  {s : List Call × LocalEngine}

theorem isIdle_eq_isNone {e : LocalEngine} (hx : e.nodes.find? name = some x) :
    e.isIdle name = x.occupant.isNone := by
  rw [LocalEngine.isIdle, LocalEngine.occupant?_of_find? hx]

theorem ensures_applied (hname : node.name = name) (hhandle : node.handle.name = name)
    (hx : s.2.nodes.find? name = some x) (d : NodeDefinition) :
    (applyDefinition node d).Ensures b.Reacts (fun o s' => ∃ l x', Reaches name s l s' ∧
      s'.2.nodes.find? name = some x' ∧
      Applied (b name) node d x o x' (l.any Call.isLifecycle)) s := by
  intro idle s₁ h₁
  obtain ⟨he₁, hidle⟩ := h₁.isIdle
  have hr₁ := h₁.reaches hname
  rw [hname, isIdle_eq_isNone hx] at hidle
  subst hidle
  cases hoccupant : x.occupant with
  | some r =>
    have hbusy : x.occupant ≠ none := hoccupant ▸ Option.some_ne_none r
    exact ⟨_, x, hr₁, he₁ ▸ hx, .deferred hbusy⟩
  | none =>
    intro a s₂ h₂
    have hx₁ : s₁.2.nodes.find? node.handle.name = some x := by rw [he₁, hhandle, hx]
    have hr := hr₁.append (h₂.reaches hhandle)
    rcases h₂.update hx₁ hoccupant with ⟨reason, hb, rfl, he₂⟩ | ⟨hb, rfl, hx₂⟩
    · rw [hhandle] at hb
      refine ⟨_, x, hr, ?_, .failed hb hoccupant⟩
      rw [he₂, he₁, hx]
    · rw [hhandle] at hb hx₂
      exact ⟨_, _, hr, hx₂, .updated hb hoccupant⟩

/-- The courses of a change, together with the calls. -/
def CourseFrom (b : Breakdown) (name : NodeName) (change : Change) (s : List Call × LocalEngine)
    (o : Outcome) (s' : List Call × LocalEngine) : Prop :=
  ∃ l, Reaches name s l s' ∧ Course (b name) name change (s.2.nodes.find? name) o
    (s'.2.nodes.find? name) (l.any Call.isLifecycle)

theorem ensures_course_bring (h : s.2.roster.Mirrors full name none) (d : NodeDefinition) :
    (bring name d).Ensures b.Reacts (CourseFrom b name (create d) s) s := by
  intro a s₁ h₁
  have hr₁ := h₁.reaches rfl
  rcases h₁.create with ⟨reason, hb, rfl, he₁⟩ | ⟨hb, ⟨hnone, k, rfl, hx₁⟩ | ⟨hsome, rfl, he₁⟩⟩
  · refine ⟨_, hr₁, ?_⟩
    rw [he₁]
    exact .creationFailed hb _
  · refine ⟨_, hr₁, ?_⟩
    rw [hnone, hx₁]
    exact .created hb k
  · -- The node is there, so it is found when it is looked up, and taken over.
    obtain ⟨x, hx⟩ := Option.ne_none_iff_exists'.mp hsome
    intro found s₂ h₂
    obtain ⟨he₂, hfound⟩ := h₂.existing
    have hr₂ := hr₁.append (h₂.reaches rfl)
    rw [he₁] at hfound he₂
    have hx₂ : s₂.2.nodes.find? name = some x := by rw [he₂, hx]
    rw [LocalEngine.existing, hx, Option.map_some] at hfound
    subst hfound
    have hhandle : x.handle.name = name := h.named _ (LocalEngine.roster_of_find? hx)
    change Dialogue.Ensures b.Reacts (if x.definition = d then _ else _) _ s₂
    split
    · next heq =>
      refine ⟨_, hr₂, ?_⟩
      rw [hx, hx₂]
      exact .adopted hb heq
    · next hne =>
      rw [Dialogue.ensures_bind]
      refine (ensures_applied rfl hhandle hx₂ d).mono ?_
      rintro o s₃ ⟨l, x', hr₃, hx₃, happlied⟩
      refine ⟨_, hr₂.append hr₃, ?_⟩
      rw [hx, hx₃]
      exact .adoptedApplied hb hne happlied

theorem ensures_course_remove (h : s.2.roster.Mirrors full name (some node)) :
    (remove name node).Ensures b.Reacts (CourseFrom b name (retire node) s) s := by
  obtain ⟨x, hx, -⟩ := LocalEngine.roster_eq_some_iff.mp h.roster_eq
  intro idle s₁ h₁
  obtain ⟨he₁, hidle⟩ := h₁.isIdle
  have hr₁ := h₁.reaches rfl
  rw [isIdle_eq_isNone hx] at hidle
  subst hidle
  cases hoccupant : x.occupant with
  | some r =>
    have hbusy : x.occupant ≠ none := hoccupant ▸ Option.some_ne_none r
    refine ⟨_, hr₁, ?_⟩
    rw [he₁, hx]
    exact .parked hbusy
  | none =>
    intro a s₂ h₂
    have hx₁ : s₁.2.nodes.find? node.handle.name = some x := by rw [he₁, h.handle_name_eq, hx]
    have hr := hr₁.append (h₂.reaches h.handle_name_eq)
    rcases h₂.remove hx₁ hoccupant with ⟨reason, hb, rfl, he₂⟩ | ⟨hb, rfl, hx₂⟩
    · rw [h.handle_name_eq] at hb
      refine ⟨_, hr, ?_⟩
      rw [he₂, he₁, hx]
      exact .removalFailed hb hoccupant
    · rw [h.handle_name_eq] at hb hx₂
      refine ⟨_, hr, ?_⟩
      rw [hx, hx₂]
      exact .removed hb hoccupant

/-- Every change takes one of the courses. -/
theorem ensures_course {change : Change} (h : s.2.roster.Mirrors full name change.before) :
    (change.carryOut name).Ensures b.Reacts (CourseFrom b name change s) s := by
  cases change with
  | keep node => exact ⟨[], .nil, .kept node _⟩
  | create d => exact ensures_course_bring h d
  | redefine node d =>
    obtain ⟨x, hx, -⟩ := LocalEngine.roster_eq_some_iff.mp h.roster_eq
    have hname : (declare node).name = name := h.name_eq
    rw [carryOut, Dialogue.ensures_bind]
    refine (ensures_applied hname h.handle_name_eq hx d).mono ?_
    rintro o s' ⟨l, x', hr, hx', happlied⟩
    refine ⟨l, hr, ?_⟩
    rw [hx, hx']
    exact .applied happlied
  | retire node => exact ensures_course_remove h

end Change

/-! ### Passes -/

/-- What the engine has under each name, and the calls for it so far. -/
def Breakdown.account (s : List Call × LocalEngine) (name : NodeName) :
    Option EngineNode × List Call :=
  (s.2.nodes.find? name, s.1.filter fun c => c.node = name)

namespace Change

variable {full : Prop} {b : Breakdown} {name : NodeName}

open Breakdown (account)

theorem CourseFrom.course_account {s s' : List Call × LocalEngine} {change : Change} {o : Outcome}
    (h : CourseFrom b name change s o s') (hs : (account s name).2 = []) :
    Course (b name) name change (account s name).1 o (account s' name).1
      ((account s' name).2.any Call.isLifecycle) ∧
    ∀ n ≠ name, account s' n = account s n := by
  obtain ⟨l, hr, hcourse⟩ := h
  constructor
  · have hl : (account s' name).2 = l := by
      have hall : l.filter (fun c => c.node = name) = l :=
        List.filter_eq_self.mpr fun c hc => decide_eq_true (hr.node c hc)
      change s'.1.filter _ = l
      rw [hr.record, List.filter_append, hall]
      change (account s name).2 ++ l = l
      rw [hs, List.nil_append]
    rw [hl]
    exact hcourse
  · intro n hn
    have hnone : l.filter (fun c => c.node = n) = [] :=
      List.filter_eq_nil_iff.mpr fun c hc => by simpa [hr.node c hc] using Ne.symm hn
    rw [account, account, hr.frame n hn, hr.record, List.filter_append, hnone, List.append_nil]

end Change

/-- The changes of a pass have taken their courses. -/
def Progress.Coursed (b : Breakdown) (snapshot : Snapshot) (inventory : Inventory)
    (e : LocalEngine) (p : Progress) (s' : List Call × LocalEngine)
    (outcome : NodeName → Change.Outcome) : Prop :=
  Settled (fun name change o x' => Change.Course (b name) name change (e.nodes.find? name) o x'.1
      (x'.2.any Call.isLifecycle))
    (Change.plan snapshot.nodes inventory) (.start inventory) (Breakdown.account ([], e)) p
    (Breakdown.account s') outcome

/-- The changes of a pass take their courses. -/
theorem Pass.ensures_coursed {full : Prop} {inventory : Inventory} {e : LocalEngine}
    (h : inventory.Mirrors full e.roster) (b : Breakdown) (snapshot : Snapshot) :
    (perform snapshot inventory).Ensures b.Reacts (fun p s' => ∃ outcome,
      p.Coursed b snapshot inventory e s' outcome) ([], e) := by
  refine ensures_settled fun name change _ hbefore s₁ hs₁ => ?_
  have hsame : s₁.2.nodes.find? name = e.nodes.find? name := congrArg Prod.fst hs₁
  have hroster : s₁.2.roster name = e.roster name := by
    rw [LocalEngine.roster, LocalEngine.existing, hsame]
    rfl
  have hname := (h name).congr hroster
  rw [hbefore] at hname
  refine (Change.ensures_course hname).mono fun o s' ho => ?_
  rw [← hsame]
  exact ho.course_account (congrArg Prod.snd hs₁)

/-- A pass is published when its changes have taken their courses. -/
theorem Pass.ensures_run_coursed {full : Prop} {pool : Pool} {e : LocalEngine} {tree : FileTree}
    {snapshot : Snapshot} (h : pool.view.inventory.Mirrors full e.roster) (b : Breakdown)
    (hread : Snapshot.read tree = .ok snapshot) :
    (run (.ok tree) pool).Ensures b.Reacts (fun x s' => ∃ p outcome,
      x = (p.result, publish pool snapshot p) ∧
      p.Coursed b snapshot pool.view.inventory e s' outcome) ([], e) := by
  rw [run_of_read hread, Dialogue.ensures_bind]
  exact (ensures_coursed h b snapshot).mono fun p s' ⟨outcome, hp⟩ => ⟨p, outcome, rfl, hp⟩

namespace Deployment

variable {full : Prop} {d : Deployment} {tree : FileTree} {snapshot : Snapshot} {b : Breakdown}

/-- The calls that a pass makes. -/
def calls (d : Deployment) (fetched : Except FetchError FileTree) : List Call :=
  (Pass.run fetched d.pool).transcript Machinery.answer d.machinery

/-- A pass without rivals is published when its changes have taken their courses. -/
theorem applied_coursed (h : d.InLine full) (hb : d.machinery.Suffers b)
    (hread : Snapshot.read tree = .ok snapshot) : ∃ p outcome,
      (d.applied (.ok tree)).1 = (p.result, Pass.publish d.pool snapshot p) ∧
      p.Coursed b snapshot d.inventory d.machinery.engine
        (d.calls (.ok tree), (d.applied (.ok tree)).2.engine) outcome := by
  have hrun := (Pass.ensures_run_coursed h.mirrors b hread).run (t := ([], d.machinery))
    (v := fun t => (t.1, t.2.engine)) (I := fun t => t.2.Suffers b) (fun c t ht => ht.reacts c) hb
  rw [Dialogue.run_noting] at hrun
  exact hrun.2

/-- On a sound engine the change under a name takes one of the courses in which the engine does not
fail. -/
theorem course_applied (h : d.InLine full) (hsound : d.machinery.Sound)
    (hread : Snapshot.read tree = .ok snapshot) {n : NodeName} {change : Change}
    (hchange : Change.of? (snapshot.nodes.find? n) (d.inventory.find? n) = some change) :
    let d' := d.act (.apply (.ok tree))
    ∃ o called, Change.Course none n change (d.machinery.engine.nodes.find? n) o
        (d'.machinery.engine.nodes.find? n) called ∧
      d'.inventory.find? n = o.node := by
  intro d'
  obtain ⟨p, outcome, heq, hp⟩ := applied_coursed h hsound.suffers hread
  obtain ⟨hcourse, hnode⟩ := hp.of_change hchange
  have hpool : d'.pool = Pass.publish d.pool snapshot p := congrArg Prod.snd heq
  rw [inventory, hpool]
  exact ⟨_, _, hcourse, hnode⟩

/-- A pass takes its courses on an engine that may have been told to fail. -/
theorem applied_coursed_of_clear (h : d.InLine full) (hm : d.machinery.Clear)
    (hread : Snapshot.read tree = .ok snapshot) :
    let b := d.machinery.engine.breakdown
    let m := (d.applied (.ok tree)).2
    m.Clear ∧ m.engine.breakdown = b ∧ ∃ p outcome,
      (d.applied (.ok tree)).1 = (p.result, Pass.publish d.pool snapshot p) ∧
      p.Coursed b snapshot d.inventory (d.machinery.under b).engine
        (d.calls (.ok tree), (m.under b).engine) outcome := by
  intro b m
  have hrun := (Pass.ensures_run_coursed (e := (d.machinery.under b).engine) h.mirrors b hread).run
    (t := ([], d.machinery)) (v := fun t => (t.1, (t.2.under b).engine))
    (I := fun t => t.2.Clear ∧ t.2.engine.breakdown = b) (fun c t ht => ht.1.reacts ht.2 c)
    ⟨hm, rfl⟩
  rw [Dialogue.run_noting] at hrun
  exact ⟨hrun.1.1, hrun.1.2, hrun.2⟩

end Deployment

end NodeLending
