import NodeLending.Proofs.Deployment.Proceed
import NodeLending.Proofs.Pass.Isolation

/-!
# Passes over the same revision

The first pass over a revision leaves nothing to do for a second one, unless a reservation ends or
the engine is told to fail, or not to fail any more, between the two. What the first pass has
brought in line is kept. A busy node is left to a later pass once more. And what an engine has
refused that has been told to fail, it refuses again.

## Main definitions

* `Change.Outcome.again`: the outcome of the next change under a name.

## Main results

* `Change.Course.again`: the next change leaves everything as it is.
* `Deployment.pass_again`: so does a second pass.
-/

namespace NodeLending

open Engine (Call)

/-! ### Changes that do nothing -/

namespace Change

variable {m : Machinery} {name : NodeName} {node : ManagedNode} {d : NodeDefinition}
  {x : EngineNode}

theorem run_keep (hactive : node.removal = .active) :
    ((keep node).carryOut name).run Machinery.answer m =
      (⟨some node, { unchanged := 1 }, none⟩, m) := by
  obtain ⟨_, _, _, _⟩ := node
  cases hactive
  rfl

theorem answer_isIdle_of_find? (hm : m.Clear) (hx : m.engine.nodes.find? name = some x) :
    m.answer (.isIdle name) = (x.occupant.isNone, m) := by
  rw [hm.answer_isIdle, isIdle_eq_isNone hx]

section Busy

variable (hm : m.Clear) (hx : m.engine.nodes.find? name = some x) (hbusy : x.occupant ≠ none)

include hm hx hbusy

theorem answer_isIdle_of_busy : m.answer (.isIdle name) = (false, m) := by
  have hsome : x.occupant.isNone = false := by
    simpa using Option.isSome_iff_ne_none.mpr hbusy
  rw [answer_isIdle_of_find? hm hx, hsome]

theorem run_redefine_of_busy (hname : node.name = name) (hactive : node.removal = .active) :
    ((redefine node d).carryOut name).run Machinery.answer m =
      (⟨some node, { deferred := 1 }, none⟩, m) := by
  have hidle := answer_isIdle_of_busy hm hx hbusy
  obtain ⟨_, _, _, _⟩ := node
  cases hname
  cases hactive
  simp only [carryOut, applyDefinition, declare, Engine.isIdle, Dialogue.run_bind,
    Dialogue.run_ask, Dialogue.run_done, hidle]
  rfl

theorem run_retire_of_busy :
    ((retire node).carryOut name).run Machinery.answer m =
      (⟨some { node with removal := .pending }, { pendingRemoval := 1 }, none⟩, m) := by
  have hidle := answer_isIdle_of_busy hm hx hbusy
  simp only [carryOut, remove, Engine.isIdle, Dialogue.run_bind, Dialogue.run_ask,
    Dialogue.run_done, hidle]
  rfl

end Busy

section Failing

variable (hm : m.Clear) (hf : m.engine.failing = true)

include hm hf

theorem run_create_of_failing :
    ((create d).carryOut name).run Machinery.answer m =
      (⟨none, {}, some s!"create '{name.text}': {LocalEngine.toldToFail.message}"⟩, m) := by
  have hrefused := hm.answer_of_failing hf (c := .create name d) rfl
  simp only [carryOut, bring, Engine.create, Dialogue.run_bind, Dialogue.run_ask,
    Dialogue.run_done, hrefused]
  rfl

variable (hx : m.engine.nodes.find? name = some x) (hidle : x.occupant = none)

include hx hidle

theorem run_redefine_of_failing (hname : node.name = name) (hactive : node.removal = .active) :
    ((redefine node d).carryOut name).run Machinery.answer m =
      (⟨some node, {}, some s!"update '{name.text}': {LocalEngine.toldToFail.message}"⟩, m) := by
  have hlook := answer_isIdle_of_find? hm hx
  rw [hidle] at hlook
  have hrefused := hm.answer_of_failing hf (c := .update node.handle d) rfl
  obtain ⟨_, _, _, _⟩ := node
  cases hname
  cases hactive
  simp only [carryOut, applyDefinition, declare, Engine.isIdle, Engine.update, Dialogue.run_bind,
    Dialogue.run_ask, Dialogue.run_done, hlook, Option.isNone_none, if_true, hrefused]
  rfl

theorem run_retire_of_failing :
    ((retire node).carryOut name).run Machinery.answer m =
      (⟨some { node with removal := .pending }, { pendingRemoval := 1 },
        some s!"remove '{name.text}': {LocalEngine.toldToFail.message}"⟩, m) := by
  have hlook := answer_isIdle_of_find? hm hx
  rw [hidle] at hlook
  have hrefused := hm.answer_of_failing hf (c := .remove node.handle) rfl
  simp only [carryOut, remove, Engine.isIdle, Engine.remove, Dialogue.run_bind,
    Dialogue.run_ask, Dialogue.run_done, hlook, Option.isNone_none, Removal.onUndeclared, if_true,
    hrefused]
  rfl

end Failing

/-! ### The next change under a name -/

/-- What comes of the next change, if nothing happens in between: the node and the failure are the
same, a node in line is counted as unchanged, and one that has been left to a later pass is left to
one again. -/
def Outcome.again (o : Outcome) (declared : Bool) : Outcome where
  node := o.node
  report := .still
    (if declared ∧ o.failure = none ∧ o.report.deferred = 0 then 1 else 0)
    o.report.deferred o.report.pendingRemoval
  failure := o.failure

variable {o : Outcome} {next : Change}

/-- A node that has been brought in line is kept. -/
theorem run_next_of_inLine (hnode : o.node = some node) (hactive : node.removal = .active)
    (hd : node.definition = d) (hfailure : o.failure = none) (hdeferred : o.report.deferred = 0)
    (hpending : o.report.pendingRemoval = 0) (hnext : of? (some d) o.node = some next) :
    (next.carryOut name).run Machinery.answer m = (o.again true, m) := by
  rw [hnode, of?, if_pos hd, Option.some.injEq] at hnext
  rw [← hnext, run_keep hactive, Outcome.again, hnode, hfailure, hdeferred, hpending]
  rfl

/-- A busy node with another definition is left to a later pass. -/
theorem run_next_of_deferred (hm : m.Clear) (hx : m.engine.nodes.find? name = some x)
    (hbusy : x.occupant ≠ none) (hnode : o.node = some node) (hname : node.name = name)
    (hactive : node.removal = .active) (hd : node.definition ≠ d) (hfailure : o.failure = none)
    (hdeferred : o.report.deferred = 1) (hpending : o.report.pendingRemoval = 0)
    (hnext : of? (some d) o.node = some next) :
    (next.carryOut name).run Machinery.answer m = (o.again true, m) := by
  rw [hnode, of?, if_neg hd, Option.some.injEq] at hnext
  rw [← hnext, run_redefine_of_busy hm hx hbusy hname hactive, Outcome.again, hnode, hfailure,
    hdeferred, hpending]
  rfl

/-- After a change has taken its course, the next one under the name leaves everything as it is. -/
theorem Course.again {change : Change} {y z : Option EngineNode} {called : Bool}
    {d? : Option NodeDefinition} {node? : Option ManagedNode} (hm : m.Clear)
    (h : Course (m.engine.breakdown name) name change y o z called)
    (hz : m.engine.nodes.find? name = z) (hname : ∀ node, o.node = some node → node.name = name)
    (hchange : of? d? node? = some change) (hnext : of? d? o.node = some next) :
    (next.carryOut name).run Machinery.answer m = (o.again d?.isSome, m) := by
  obtain ⟨hbefore, hdeclared⟩ := eq_of_of? hchange
  subst hbefore hdeclared
  cases h with
  | kept node =>
    have hdeferred := deferred_reactivation node
    have hpending := pendingRemoval_reactivation node
    exact run_next_of_inLine rfl rfl rfl rfl (by simpa) (by simpa) hnext
  | created => exact run_next_of_inLine rfl rfl rfl rfl rfl rfl hnext
  | creationFailed hwhy =>
    obtain ⟨hf, hreason⟩ := LocalEngine.failing_of_breakdown hwhy
    cases hnext
    rw [run_create_of_failing hm hf, hreason]
    rfl
  | adopted _ heq => exact run_next_of_inLine rfl rfl heq rfl rfl rfl hnext
  | adoptedApplied hwhy hne happlied =>
    cases happlied with
    | deferred hbusy =>
      exact run_next_of_deferred hm hz hbusy rfl rfl rfl hne rfl rfl rfl hnext
    | updated => exact run_next_of_inLine rfl rfl rfl rfl rfl rfl hnext
    | failed hwhy' =>
      rw [hwhy] at hwhy'
      cases hwhy'
  | @applied node d x x' o called happlied =>
    have hdeferred := deferred_reactivation node
    have hpending := pendingRemoval_reactivation node
    have hne : node.definition ≠ d := by
      intro heq
      rw [before, declared?, of?, if_pos heq] at hchange
      cases hchange
    cases happlied with
    | deferred hbusy =>
      have hnode := hname (declare node) rfl
      exact run_next_of_deferred hm hz hbusy rfl hnode rfl hne rfl (by simpa) (by simpa) hnext
    | updated => exact run_next_of_inLine rfl rfl rfl rfl (by simpa) (by simpa) hnext
    | failed hwhy hidle =>
      obtain ⟨hf, hreason⟩ := LocalEngine.failing_of_breakdown hwhy
      have hnode : (declare node).name = name := hname _ rfl
      have hne' : (declare node).definition ≠ d := hne
      rw [declared?, of?, if_neg hne', Option.some.injEq] at hnext
      have hdeferred' : (reactivation node + {}).deferred = 0 := by simpa
      have hpending' : (reactivation node + {}).pendingRemoval = 0 := by simpa
      rw [← hnext, run_redefine_of_failing hm hf hz hidle hnode rfl, Outcome.again, hreason, hnode,
        hdeferred', hpending']
      rfl
  | parked hbusy =>
    cases hnext
    exact run_retire_of_busy hm hz hbusy
  | removed => cases hnext
  | removalFailed hwhy hidle =>
    obtain ⟨hf, hreason⟩ := LocalEngine.failing_of_breakdown hwhy
    cases hnext
    rw [run_retire_of_failing hm hf hz hidle, hreason]
    rfl

/-- At most one deferred change is counted under a name, and none if it is not declared. -/
theorem Course.deferred_le {why : Option (Call.Kind → String)} {change : Change}
    {y z : Option EngineNode} {called : Bool} (h : Course why name change y o z called) :
    o.report.deferred ≤ if change.declared?.isSome then 1 else 0 := by
  cases h with
  | kept node =>
    rw [PassReport.deferred_add, deferred_reactivation]
    exact Nat.zero_le _
  | @applied node _ _ _ _ _ h =>
    rw [PassReport.deferred_add, deferred_reactivation]
    cases h with
    | deferred => exact le_rfl
    | _ => exact Nat.zero_le _
  | adoptedApplied _ _ h =>
    rw [PassReport.deferred_add]
    cases h with
    | deferred => exact le_rfl
    | _ => exact Nat.zero_le _
  | _ => exact Nat.zero_le _

/-- A node that is gone after it has been retired is left to no later pass. -/
theorem Course.pendingRemoval_eq_zero {why : Option (Call.Kind → String)} {y z : Option EngineNode}
    {called : Bool} (h : Course why name (retire node) y o z called) (hgone : o.node = none) :
    o.report.pendingRemoval = 0 := by
  cases h with
  | parked | removalFailed => cases hgone
  | removed => rfl

end Change

/-! ### Passes that do nothing -/

namespace Progress

/-- Changes that leave the machinery as it is, and the pool as well, are counted only. -/
theorem run_carryOut_of_still {m : Machinery} {plan : List (NodeName × Change)} {p : Progress}
    (outcome : NodeName → Change.Outcome)
    (h : ∀ x ∈ plan, (x.2.carryOut x.1).run Machinery.answer m = (outcome x.1, m) ∧
      (outcome x.1).node = p.inventory.find? x.1) :
    (p.carryOut plan).run Machinery.answer m =
      (⟨p.inventory, p.report + (plan.map fun x => (outcome x.1).report).sum,
        p.failures ++ plan.flatMap fun x => (outcome x.1).failure.toList⟩, m) := by
  induction plan generalizing p with
  | nil => simp [carryOut]
  | cons x rest ih =>
    obtain ⟨name, change⟩ := x
    obtain ⟨hrun, hnode⟩ := h _ List.mem_cons_self
    have hinventory : (p.note name (outcome name)).inventory = p.inventory := by
      refine Keyed.ext_find? fun n => ?_
      rw [find?_note]
      split
      · next heq => rw [heq, hnode]
      · rfl
    have hrest := ih (p := p.note name (outcome name)) fun x hx => by
      rw [hinventory]
      exact h x (List.mem_cons_of_mem _ hx)
    rw [carryOut, Dialogue.run_bind, hrun, hrest, hinventory, List.map_cons, List.sum_cons,
      List.flatMap_cons, ← add_assoc, ← List.append_assoc]
    rfl

namespace Coursed

variable {b : Breakdown} {snapshot : Snapshot} {inventory : Inventory} {e : LocalEngine}
  {p : Progress} {s : List Call × LocalEngine} {outcome : NodeName → Change.Outcome}
  {m : Machinery} {full : Prop}

/-- A name with a change after a pass had one before. -/
theorem exists_change (h : p.Coursed b snapshot inventory e s outcome) {n : NodeName}
    {next : Change}
    (hnext : Change.of? (snapshot.nodes.find? n) (p.inventory.find? n) = some next) :
    ∃ change, Change.of? (snapshot.nodes.find? n) (inventory.find? n) = some change := by
  rw [← Option.ne_none_iff_exists']
  intro hnone
  obtain ⟨hd, hi⟩ := Change.of?_eq_none_iff.mp hnone
  rw [hd, (h.of_none hd hi).1] at hnext
  cases hnext

/-- The changes of a second pass leave everything as it is. -/
theorem run_perform (h : p.Coursed b snapshot inventory e s outcome) (hm : m.Clear)
    (hb : m.engine.breakdown = b) (hs : m.engine.nodes = s.2.nodes)
    (hp : p.inventory.Mirrors full m.engine.roster) :
    let plan := Change.plan snapshot.nodes p.inventory
    let again := fun x : NodeName × Change => (outcome x.1).again (snapshot.nodes.contains x.1)
    (Pass.perform snapshot p.inventory).run Machinery.answer m =
      (⟨p.inventory, (plan.map fun x => (again x).report).sum,
        plan.flatMap fun x => (outcome x.1).failure.toList⟩, m) := by
  intro plan again
  have hstill : ∀ x ∈ plan, (x.2.carryOut x.1).run Machinery.answer m =
      ((outcome x.1).again (snapshot.nodes.contains x.1), m) ∧
        ((outcome x.1).again (snapshot.nodes.contains x.1)).node = p.inventory.find? x.1 := by
    rintro ⟨n, next⟩ hx
    have hnext := Change.mem_plan.mp hx
    obtain ⟨change, hchange⟩ := h.exists_change hnext
    obtain ⟨hcourse, hnode⟩ := h.of_change hchange
    refine ⟨?_, hnode.symm⟩
    rw [hnode] at hnext
    have hname : ∀ node, (outcome n).node = some node → node.name = n := by
      intro node ho
      have hmirrors := hp n
      rw [hnode, ho] at hmirrors
      exact hmirrors.name_eq
    subst hb
    refine hcourse.again hm ?_ hname hchange hnext
    rw [hs]
    rfl
  rw [Pass.perform, run_carryOut_of_still (p := .start p.inventory)
    (fun n => (outcome n).again (snapshot.nodes.contains n)) hstill]
  change ((⟨p.inventory, 0 + _, [] ++ _⟩ : Progress), m) = _
  rw [zero_add, List.nil_append]
  rfl

/-- What an engine has refused that fails for every node, it has been asked for in the same order as
it will be asked for it by the next pass. -/
theorem flatMap_failure (h : p.Coursed b snapshot inventory e s outcome)
    (hb : (∀ n, b n = none) ∨ ∀ n, b n ≠ none) :
    ((Change.plan snapshot.nodes p.inventory).flatMap fun x => (outcome x.1).failure.toList) =
      p.failures := by
  have hfailures : p.failures = (Change.plan snapshot.nodes inventory).flatMap
      fun x => (outcome x.1).failure.toList := h.failures.trans (List.nil_append _)
  rw [hfailures]
  rcases hb with hworks | hbroken
  · have hnone : ∀ {n change},
        Change.of? (snapshot.nodes.find? n) (inventory.find? n) = some change →
        (outcome n).failure.toList = [] := by
      intro n change hchange
      have hcourse := (h.of_change hchange).1
      rw [hworks] at hcourse
      rw [hcourse.of_working]
      rfl
    rw [List.flatMap_eq_nil_iff.mpr, List.flatMap_eq_nil_iff.mpr]
    · rintro ⟨n, change⟩ hx
      exact hnone (Change.mem_plan.mp hx)
    · rintro ⟨n, next⟩ hx
      obtain ⟨change, hchange⟩ := h.exists_change (Change.mem_plan.mp hx)
      exact hnone hchange
  · have hnames : (Change.plan snapshot.nodes p.inventory).map Prod.fst =
        (Change.plan snapshot.nodes inventory).map Prod.fst := by
      have hbetween : ChangePlan.between snapshot.nodes p.inventory ManagedNode.definition =
          ChangePlan.between snapshot.nodes inventory ManagedNode.definition := by
        refine ChangePlan.between_congr fun n => ?_
        rw [(h.of_broken (hbroken n)).2, Option.map_map]
        rfl
      rw [Change.map_fst_plan, Change.map_fst_plan, hbetween]
    have hflat : ∀ l : List (NodeName × Change),
        (l.flatMap fun x => (outcome x.1).failure.toList) =
          (l.map Prod.fst).flatMap fun n => (outcome n).failure.toList := fun l => by
      rw [List.flatMap_map]
    rw [hflat, hflat, hnames]

/-! ### Counts -/

/-- What is counted under the names with a change after a pass is what the pass has counted under
all names with a change, if nothing is counted for a node that is gone. -/
theorem sum_plan (h : p.Coursed b snapshot inventory e s outcome) {g : NodeName → Nat}
    (hg : ∀ n node, snapshot.nodes.find? n = none → inventory.find? n = some node →
      (outcome n).node = none → g n = 0) :
    ((Change.plan snapshot.nodes p.inventory).map fun x => g x.1).sum =
      ((Change.plan snapshot.nodes inventory).map fun x => g x.1).sum := by
  rw [sum_map_plan, sum_map_plan]
  refine Finset.sum_subset (fun n hn => ?_) (fun n hn hgone => ?_)
  · rw [List.mem_toFinset] at hn ⊢
    by_contra hbefore
    obtain ⟨hd, hi⟩ := Change.not_mem_map_fst_plan.mp hbefore
    exact Change.not_mem_map_fst_plan.mpr ⟨hd, (h.of_none hd hi).1⟩ hn
  · rw [List.mem_toFinset] at hn hgone
    obtain ⟨⟨_, change⟩, hx, rfl⟩ := List.mem_map.mp hn
    obtain ⟨hd, hi⟩ := Change.not_mem_map_fst_plan.mp hgone
    have hchange := Change.mem_plan.mp hx
    cases hnode : inventory.find? (_, change).1 with
    | none =>
      rw [hd, hnode] at hchange
      cases hchange
    | some node => exact hg _ node hd hnode ((h.of_change hchange).2.symm.trans hi)

/-- A second pass counts the same, where nothing is counted for a node that is gone. -/
theorem count_again (h : p.Coursed b snapshot inventory e s outcome) (count : PassReport →+ Nat)
    (hcount : ∀ {why name node x y o called},
      Change.Course why name (.retire node) x o y called → o.node = none → count o.report = 0) :
    ((Change.plan snapshot.nodes p.inventory).map fun x => count (outcome x.1).report).sum =
      count p.report := by
  rw [h.sum_plan (g := fun n => count (outcome n).report), h.report_eq, map_list_sum, List.map_map]
  · rfl
  · intro n node hd hi hgone
    have hchange : Change.of? (snapshot.nodes.find? n) (inventory.find? n) =
        some (.retire node) := by
      rw [hd, hi, Change.of?]
    exact hcount (h.of_change hchange).1 hgone

/-- If nothing has gone wrong, a second pass finds the declared nodes unchanged, but for those that
it leaves to a later pass once more. -/
theorem sum_report_again (h : p.Coursed b snapshot inventory e s outcome)
    (hclean : p.failures = []) :
    ∃ unchanged, ((Change.plan snapshot.nodes p.inventory).map fun x =>
        ((outcome x.1).again (snapshot.nodes.contains x.1)).report).sum =
          .still unchanged p.report.deferred p.report.pendingRemoval ∧
      unchanged + p.report.deferred = snapshot.nodes.size := by
  let plan := Change.plan snapshot.nodes p.inventory
  let deferred := fun x : NodeName × Change => (outcome x.1).report.deferred
  let unchanged := fun x : NodeName × Change =>
    if snapshot.nodes.contains x.1 ∧ (outcome x.1).failure = none ∧ deferred x = 0 then 1 else 0
  have hdeferred : (plan.map deferred).sum = p.report.deferred :=
    h.count_again PassReport.countDeferred fun hcourse _ => Nat.le_zero.mp hcourse.deferred_le
  have hpending : (plan.map fun x => (outcome x.1).report.pendingRemoval).sum =
      p.report.pendingRemoval :=
    h.count_again PassReport.countPending fun hcourse hgone => hcourse.pendingRemoval_eq_zero hgone
  -- A declared node is either unchanged or deferred, and no other node is.
  have heach : ∀ x ∈ plan, unchanged x + deferred x =
      if snapshot.nodes.contains x.1 then 1 else 0 := by
    rintro ⟨n, next⟩ hx
    obtain ⟨change, hchange⟩ := h.exists_change (Change.mem_plan.mp hx)
    have hle := (h.of_change hchange).1.deferred_le
    have hfailure := h.failure_eq_none hclean hchange
    rw [← (Change.eq_of_of? hchange).2] at hle
    change (outcome n).report.deferred ≤ if snapshot.nodes.contains n then 1 else 0 at hle
    simp only [unchanged, deferred, hfailure, true_and]
    by_cases hn : snapshot.nodes.contains n = true
    · rw [if_pos hn] at hle
      by_cases hzero : (outcome n).report.deferred = 0
      · simp [hn, hzero]
      · simp only [hn, hzero, and_false, if_false, if_true]
        omega
    · rw [if_neg hn] at hle
      simpa [hn] using hle
  refine ⟨(plan.map unchanged).sum, ?_, ?_⟩
  · rw [← hdeferred, ← hpending]
    exact PassReport.sum_still plan unchanged deferred _
  · rw [← hdeferred, ← List.sum_map_add, List.map_congr_left heach,
      sum_map_plan_contains _ _ _ fun _ hd _ => hd]

/-- A second pass leaves everything as it is and has the same failures. -/
theorem perform_again (h : p.Coursed b snapshot inventory e s outcome) (hm : m.Clear)
    (hb : m.engine.breakdown = b) (hs : m.engine.nodes = s.2.nodes)
    (hp : p.inventory.Mirrors full m.engine.roster) :
    ∃ report, (Pass.perform snapshot p.inventory).run Machinery.answer m =
        (⟨p.inventory, report, p.failures⟩, m) ∧
      (p.failures = [] → ∃ unchanged,
        report = .still unchanged p.report.deferred p.report.pendingRemoval ∧
        unchanged + p.report.deferred = snapshot.nodes.size) := by
  have hall : (∀ n, b n = none) ∨ ∀ n, b n ≠ none := hb ▸ m.engine.breakdown_total
  refine ⟨_, ?_, h.sum_report_again⟩
  rw [h.run_perform hm hb hs hp, h.flatMap_failure hall]

end Coursed

/-- Passes with the same failures, or without any, end in the same way but for their reports. -/
theorem result_eq_error_iff {p p' : Progress} (h : p.failures = p'.failures) {e : PassError} :
    p.result = .error e ↔ p'.result = .error e := by
  rw [result, result, h]
  cases p'.failures with
  | nil => simp
  | cons => exact Iff.rfl

end Progress

/-- What is published a second time is what has been published. -/
theorem Pass.publish_publish {pool : Pool} {s : Snapshot} {p p' : Progress}
    (hinventory : p'.inventory = p.inventory) (hfailures : p'.failures = p.failures) :
    publish (publish pool s p) s p' = publish pool s p := by
  simp only [publish, Progress.result, hinventory, hfailures]
  cases p.failures <;> rfl

namespace Deployment

variable {d : Deployment} {full : Prop}

/-- A second pass over a revision that is not rejected. -/
theorem applied_again (h : d.InLine full) (hclear : d.machinery.Clear) {tree : FileTree}
    {snapshot : Snapshot} (hread : Snapshot.read tree = .ok snapshot) :
    let d₁ := d.act (.apply (.ok tree))
    d₁.act (.apply (.ok tree)) = d₁ ∧ d₁.pool.view.snapshot = some snapshot ∧
    (∀ e, (d₁.applied (.ok tree)).1.1 = .error e ↔ (d.applied (.ok tree)).1.1 = .error e) ∧
    ∀ report, (d.applied (.ok tree)).1.1 = .ok report → ∃ unchanged,
      (d₁.applied (.ok tree)).1.1 = .ok (.still unchanged report.deferred report.pendingRemoval) ∧
      unchanged + report.deferred = snapshot.nodes.size := by
  intro d₁
  obtain ⟨hclear₁, hbreakdown, p, outcome, heq, hp⟩ := applied_coursed_of_clear h hclear hread
  have hpool : d₁.pool = Pass.publish d.pool snapshot p := congrArg Prod.snd heq
  have hinventory : d₁.pool.view.inventory = p.inventory := by
    rw [hpool]
    rfl
  have hmirrors : p.inventory.Mirrors full d₁.machinery.engine.roster := by
    rw [← hinventory]
    exact (h.apply (.ok tree)).mirrors
  obtain ⟨report, hperform, hreport⟩ :=
    hp.perform_again (m := d₁.machinery) hclear₁ hbreakdown rfl hmirrors
  let p' : Progress := ⟨p.inventory, report, p.failures⟩
  have happlied : d₁.applied (.ok tree) =
      ((p'.result, Pass.publish d₁.pool snapshot p'), d₁.machinery) := by
    rw [applied, Pass.run_of_read hread, Dialogue.run_bind, hinventory, hperform]
    rfl
  have hpublish : Pass.publish d₁.pool snapshot p' = d₁.pool := by
    rw [hpool]
    exact Pass.publish_publish rfl rfl
  have herror : ∀ e, p'.result = .error e ↔ p.result = .error e := fun e =>
    Progress.result_eq_error_iff (show p'.failures = p.failures from rfl)
  have hok : ∀ r, p.result = .ok r → ∃ unchanged,
      p'.result = .ok (.still unchanged r.deferred r.pendingRemoval) ∧
        unchanged + r.deferred = snapshot.nodes.size := by
    intro r hr
    rcases p.result_cases with ⟨hnil, hok⟩ | ⟨-, _, herror⟩
    · have hr' : p.report = r := Except.ok.inj (hok.symm.trans hr)
      obtain ⟨unchanged, hstill, hsize⟩ := hreport hnil
      rw [hr'] at hstill hsize
      refine ⟨unchanged, ?_, hsize⟩
      rw [Progress.result, hnil, ← hstill]
    · rw [herror] at hr
      cases hr
  rw [act, happlied, heq]
  refine ⟨?_, ?_, herror, hok⟩
  · dsimp only
    rw [hpublish]
    rfl
  · rw [hpool]
    rfl

/-- A second pass that has the same to go on with. -/
theorem proceed_again (h : d.InLine full) (hclear : d.machinery.Clear)
    (fetched : Option (Except FetchError FileTree)) :
    let d₁ := (d.proceed fetched).2
    (d₁.proceed fetched).2 = d₁ ∧
    (∀ e, (d₁.proceed fetched).1 = .error e ↔ (d.proceed fetched).1 = .error e) ∧
    ∀ report, (d.proceed fetched).1 = .ok report → ∃ s unchanged,
      d₁.pool.view.snapshot = some s ∧
      (d₁.proceed fetched).1 = .ok (.still unchanged report.deferred report.pendingRemoval) ∧
      unchanged + report.deferred = s.nodes.size := by
  cases fetched with
  | none => exact ⟨rfl, fun _ => Iff.rfl, nofun⟩
  | some f =>
    cases hread : Pass.read f with
    | error e =>
      have happlied : ∀ d : Deployment, d.proceed (some f) =
          (.error e, d.withPool (Pass.reject d.pool e)) := fun d => by
        rw [proceed, act, applied_of_read_error hread]
        rfl
      rw [happlied]
      dsimp only
      rw [happlied]
      exact ⟨rfl, fun _ => Iff.rfl, nofun⟩
    | ok s =>
      obtain ⟨tree, rfl, htree⟩ := Pass.exists_tree_of_read hread
      obtain ⟨hsame, hsnapshot, herror, hok⟩ := applied_again h hclear htree
      refine ⟨hsame, herror, fun report hreport => ?_⟩
      obtain ⟨unchanged, hstill, hsize⟩ := hok report hreport
      exact ⟨s, unchanged, hsnapshot, hstill, hsize⟩

/-- **Passes are idempotent.** Let one pass follow upon another, with nothing happening in between
and no fault but that the engine may have been told to fail. The second pass leaves the orchestrator
as the first one has left it, and so the engine with the number of its next incarnation. It fails
with the same error, or not at all, as the first. If they do not fail, the second pass only finds
declared nodes as they should be, and leaves the same number of busy nodes to a later pass as the
first: of declared nodes, which together with the former are all declared nodes, and of the
others. -/
theorem pass_again (hd : d.Reachable full) (hclear : d.machinery.Clear) :
    let d₁ := d.pass.2
    let d₂ := d₁.pass.2
    d₂.orchestrator = d₁.orchestrator ∧ d₂.machinery = d₁.machinery ∧
    (∀ e, d₁.pass.1 = .error e ↔ d.pass.1 = .error e) ∧
    ∀ report, d.pass.1 = .ok report → ∃ s unchanged, d₁.pool.view.snapshot = some s ∧
      d₁.pass.1 = .ok { unchanged, deferred := report.deferred,
                        pendingRemoval := report.pendingRemoval } ∧
      unchanged + report.deferred = s.nodes.size := by
  intro d₁ d₂
  let x := (d.proceed d.fetched).2
  obtain ⟨hsame, herror, hok⟩ := proceed_again hd.inLine hclear d.fetched
  have hfirst : d.pass = ((d.proceed d.fetched).1, { x with hosting := d.begin.hosting }) :=
    d.pass_eq_proceed
  have hd₁ : d₁ = { x with hosting := d.begin.hosting } := congrArg Prod.snd hfirst
  have hsecond : d₁.pass = ((x.proceed d.fetched).1, { x with hosting := d₁.begin.hosting }) := by
    have harrange : d₁.proceed d.fetched =
        ((x.proceed d.fetched).1, { x with hosting := d.begin.hosting }) := by
      rw [hd₁, x.proceed_arrange d.fetched d.begin.hosting x.flight, hsame]
    rw [pass_eq_proceed, fetched_pass, harrange]
  have hd₂ : d₂ = { x with hosting := d₁.begin.hosting } := congrArg Prod.snd hsecond
  rw [hd₂, hsecond, hd₁, hfirst]
  exact ⟨rfl, rfl, herror, hok⟩

end Deployment

/-- A party uses the node when it is not declared any more. -/
def Sample.busy : Deployment :=
  (Deployment.new (some "r") bareRevision).acts
    [.apply (.ok revision), .enqueue party (.atom "a"), .maintain]

namespace Deployment

/-- That the node cannot be removed is counted by each of the passes. -/
theorem pass_again_busy : Sample.busy.pass.2.pass.1 = .ok { pendingRemoval := 1 } := by
  have hd : Sample.busy.Reachable True :=
    (((Reachable.new _ _).act (a := .apply _) trivial nofun).act (a := .enqueue _ _) trivial
      nofun).act (a := .maintain) trivial nofun
  have hclear : Sample.busy.machinery.Clear := by
    simp only [Sample.busy, acts, List.foldl_cons, List.foldl_nil, act, applied]
    rw [Pass.run_of_read Sample.read_revision]
    exact fun _ _ => rfl
  have hfirst : Sample.busy.pass.1 = .ok { pendingRemoval := 1 } ∧
      Sample.busy.pass.2.pool.view.snapshot = some Sample.bareSnapshot := by
    have hfetched : Sample.busy.fetched = some (.ok Sample.bareRevision) := rfl
    rw [pass_eq_proceed, hfetched]
    simp only [proceed, act, applied, Pass.run_of_read Sample.read_bareRevision]
    simp only [Sample.busy, acts, List.foldl_cons, List.foldl_nil, act, applied]
    rw [Pass.run_of_read Sample.read_revision]
    decide
  obtain ⟨-, -, -, hok⟩ := pass_again hd hclear
  obtain ⟨s, unchanged, hs, hsecond, hsize⟩ := hok _ hfirst.1
  rw [hfirst.2, Option.some.injEq] at hs
  subst hs
  have hnone : unchanged = 0 := hsize
  rw [hsecond, hnone]

end Deployment

end NodeLending
