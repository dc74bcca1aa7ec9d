import NodeLending.Proofs.Pass.Race
import NodeLending.Proofs.Pass.Settled

/-!
# What the report of a pass says

The report of a pass that does not fail can be checked against what was there before and what is
there afterwards: every count of it is the number of names of which something can be seen in what is
declared, in the pool and on the engine. A node that was found on the engine may be redefined as
well, and so is counted twice; every other declared node is counted once, and so is every node that
the pool had and that is not declared any more.

This holds of a change under a name first. The ends that a change may come to are known from what
the engine has under the name, and each of them is counted as it should be. The report of the pass
is the sum.

## Main definitions

* `PassReport.seen`: the counts of a name, from what was there before and what is there afterwards.
* `PassReport.Accounts`: the counts of a report are those of what was there before and afterwards.

## Main results

* `Change.Ending.report_eq`: the report of a change that has not failed has the counts of the name.
* `Deployment.race_accounts`: a pass among rivals accounts for every node.
-/

namespace NodeLending

/-! ### The counts of a name -/

/-- The counts of a name: `declared` is what is declared under it, `before` and `after` what the
pool has there before and after a pass, and `held` and `held'` what the engine has there. -/
def PassReport.seen (declared : Option NodeDefinition) (before after : Option ManagedNode)
    (held held' : Option (NodeHandle × NodeDefinition)) : PassReport where
  created := if held'.any fun _ => !held.isSome then 1 else 0
  updated := if declared.any fun d =>
    held.any (fun x => x.2 ≠ d) && held'.any (fun x => x.2 = d) then 1 else 0
  unchanged := if declared.any fun d => before.any fun node => node.definition = d then 1 else 0
  removed := if held.any fun _ => !held'.isSome then 1 else 0
  deferred := if after.any fun node =>
    node.isActive && declared.any fun d => node.definition ≠ d then 1 else 0
  pendingRemoval := if after.any fun node => !node.isActive then 1 else 0
  reactivated := if before.any fun node => !node.isActive && declared.isSome then 1 else 0
  adopted := if declared.any fun _ => !before.isSome && held.isSome then 1 else 0

namespace Change

theorem reactivation_eq (node : ManagedNode) :
    reactivation node = { reactivated := if !node.isActive then 1 else 0 } := by
  rw [reactivation]
  cases node.isActive <;> rfl

namespace Ending

variable {name : NodeName} {d? : Option NodeDefinition} {node? : Option ManagedNode}
  {change : Change} {o : Outcome} {x x' : Option (NodeHandle × NodeDefinition)}

/-- The report of a change that has not failed has the counts of the name. -/
theorem report_eq (h : Ending name change x o x') (hchange : of? d? node? = some change)
    (hclean : o.failure = none) : o.report = .seen d? node? o.node x x' := by
  obtain ⟨hbefore, hdeclared⟩ := eq_of_of? hchange
  subst hbefore hdeclared
  cases h with
  | notCreated | notRemoved => cases hclean
  | adoptedRedefined hne h =>
    cases h with
    | failed => cases hclean
    | updated | deferred =>
      simp [PassReport.seen, before, declared?, PassReport.add_def, PassReport.add,
        ManagedNode.isActive, Removal.isActive, hne]
  | @redefined node d _ _ h =>
    have hne : node.definition ≠ d := by
      intro heq
      rw [before, declared?, of?, if_pos heq] at hchange
      cases hchange
    cases h with
    | failed => cases hclean
    | updated | deferred =>
      simp [PassReport.seen, before, declared?, reactivation_eq, PassReport.add_def,
        PassReport.add, declare, ManagedNode.isActive, Removal.onDeclared, Removal.isActive, hne]
  | kept | created | adopted | parked | removed =>
    simp [PassReport.seen, before, declared?, reactivation_eq, PassReport.add_def, PassReport.add,
      declare, ManagedNode.isActive, Removal.onDeclared, Removal.isActive]

/-- A declared node is counted once, and once more if it is on the engine already with another
definition. -/
theorem count_declared (h : Ending name change x o x') (hchange : of? d? node? = some change)
    (hclean : o.failure = none) :
    o.report.unchanged + o.report.created + o.report.adopted + o.report.updated +
        o.report.deferred =
      (if d?.isSome then 1 else 0) +
        if d?.any fun d => !node?.isSome && x.any fun y => y.2 ≠ d then 1 else 0 := by
  obtain ⟨hbefore, hdeclared⟩ := eq_of_of? hchange
  subst hbefore hdeclared
  cases h with
  | notCreated | notRemoved => cases hclean
  | adoptedRedefined hne h =>
    cases h with
    | failed => cases hclean
    | updated | deferred =>
      simp [before, declared?, PassReport.add_def, PassReport.add, hne]
  | redefined h =>
    cases h with
    | failed => cases hclean
    | updated | deferred =>
      simp [before, declared?, reactivation_eq, PassReport.add_def, PassReport.add]
  | kept | created | adopted | parked | removed =>
    simp [before, declared?, reactivation_eq, PassReport.add_def, PassReport.add]

/-- A node that the pool had and that is not declared is counted once. -/
theorem count_undeclared (h : Ending name change x o x') (hchange : of? d? node? = some change) :
    o.report.removed + o.report.pendingRemoval =
      if node?.any fun _ => !d?.isSome then 1 else 0 := by
  obtain ⟨hbefore, hdeclared⟩ := eq_of_of? hchange
  subst hbefore hdeclared
  cases h with
  | adoptedRedefined _ h | redefined h =>
    cases h <;> simp [before, declared?, reactivation_eq, PassReport.add_def, PassReport.add]
  | _ => simp [before, declared?, reactivation_eq, PassReport.add_def, PassReport.add]

/-- The pool has the nodes that are declared and those that still have to be removed. -/
theorem count_node (h : Ending name change x o x') (hchange : of? d? node? = some change)
    (hclean : o.failure = none) :
    (if o.node.isSome then 1 else 0) =
      (if d?.isSome then 1 else 0) + o.report.pendingRemoval := by
  obtain ⟨-, hdeclared⟩ := eq_of_of? hchange
  subst hdeclared
  cases h with
  | notCreated => cases hclean
  | adoptedRedefined _ h | redefined h =>
    cases h <;> simp [declared?, reactivation_eq, PassReport.add_def, PassReport.add]
  | _ => simp [declared?, reactivation_eq, PassReport.add_def, PassReport.add]

end Ending

end Change

/-! ### The counts of a pass -/

/-- The counts of a report are those of what is declared, of what the pool has before and after, and
of what the engine has before and after. -/
structure PassReport.Accounts (r : PassReport) (declared : Keyed NodeName NodeDefinition)
    (before after : Inventory) (e e' : LocalEngine) : Prop where
  /-- Each declared node is counted once, and once more if it has been adopted while the engine had
  it with another definition. -/
  total : r.unchanged + r.created + r.adopted + r.updated + r.deferred = declared.size +
    (declared.filter fun n d => !before.contains n && (e.existing n).any fun x => x.2 ≠ d).size
  /-- Each node that the pool had and that is not declared any more is counted once. -/
  dismissed : r.removed + r.pendingRemoval =
    (before.filter fun n _ => !declared.contains n).size
  /-- The pool has the nodes that are declared and those that still have to be removed. -/
  size : after.size = declared.size + r.pendingRemoval
  /-- The nodes that are out of service. -/
  pendingRemoval : r.pendingRemoval = (after.filter fun _ node => !node.isActive).size
  /-- The nodes in service that have another definition than the one declared. -/
  deferred : r.deferred = (after.filter fun n node =>
    node.isActive && (declared.find? n).any fun d => node.definition ≠ d).size
  /-- The nodes that were out of service and are declared. -/
  reactivated : r.reactivated =
    (before.filter fun n node => !node.isActive && declared.contains n).size
  /-- The declared nodes that the engine had and the pool had not. -/
  adopted : r.adopted =
    (declared.filter fun n _ => !before.contains n && (e.existing n).isSome).size
  /-- The declared nodes that the pool had with their definition. -/
  unchanged : r.unchanged =
    (declared.filter fun n d => (before.find? n).any fun node => node.definition = d).size
  /-- The declared nodes whose definition the engine has got. -/
  updated : r.updated = (declared.filter fun n d =>
    (e.existing n).any (fun x => x.2 ≠ d) && (e'.existing n).any fun x => x.2 = d).size
  /-- The nodes that the engine has got. -/
  created : r.created = (e'.nodes.filter fun n _ => !e.nodes.contains n).size
  /-- The nodes that the engine has lost. -/
  removed : r.removed = (e.nodes.filter fun n _ => !e'.nodes.contains n).size

namespace LocalEngine

variable {e : LocalEngine} {n : NodeName}

theorem isSome_roster : (e.roster n).isSome = e.nodes.contains n := by
  rw [roster, existing, Option.isSome_map, Keyed.contains]

theorem any_roster (b : Bool) :
    (e.roster n).any (fun _ => b) = (e.nodes.find? n).any fun _ => b := by
  rw [roster, existing, Option.any_map]

end LocalEngine

/-- The nodes that one engine has and another one has not are counted by the names with a change, if
both have the same under every other name. -/
theorem Progress.sum_map_plan_gained {declared : Keyed NodeName NodeDefinition}
    {inventory : Inventory} {e e' : LocalEngine} (h : ∀ n, declared.find? n = none →
      inventory.find? n = none → e'.roster n = e.roster n) :
    ((Change.plan declared inventory).map fun x =>
      if (e'.roster x.1).any fun _ => !(e.roster x.1).isSome then 1 else 0).sum =
        (e'.nodes.filter fun n _ => !e.nodes.contains n).size := by
  have hsame : ∀ n, declared.find? n = none → inventory.find? n = none →
      ((e'.nodes.find? n).any fun _ => !e.nodes.contains n) = false := by
    intro n hd hi
    rw [← LocalEngine.any_roster, h n hd hi, ← LocalEngine.isSome_roster]
    cases e.roster n <;> rfl
  rw [← sum_map_plan_any declared inventory e'.nodes _ hsame]
  refine congrArg List.sum (List.map_congr_left fun x _ => ?_)
  rw [LocalEngine.any_roster, LocalEngine.isSome_roster]

namespace Progress.Settled

variable {snapshot : Snapshot} {inventory : Inventory} {p : Progress} {e e' : LocalEngine}
  {outcome : NodeName → Change.Outcome}

variable (h : Settled (fun n change => Change.Ending n change (e.roster n))
  (Change.plan snapshot.nodes inventory) (.start inventory) e.roster p e'.roster outcome)
  (hclean : p.failures = [])

include h hclean

/-- The report of a pass is the sum of the counts of the names. -/
theorem report_eq_sum : p.report = ((Change.plan snapshot.nodes inventory).map fun x =>
    .seen (snapshot.nodes.find? x.1) (inventory.find? x.1) (p.inventory.find? x.1) (e.roster x.1)
      (e'.roster x.1)).sum := by
  rw [h.report_eq]
  refine congrArg List.sum (List.map_congr_left fun x hx => ?_)
  have hchange := Change.mem_plan.mp hx
  obtain ⟨hend, hnode⟩ := h.of_change hchange
  rw [hend.report_eq hchange (h.failure_eq_none hclean hchange), hnode]

/-- The report of a pass that has not failed accounts for every node. -/
theorem accounts : p.report.Accounts snapshot.nodes inventory p.inventory e e' := by
  have hsum := h.report_eq_sum hclean
  have hreport := h.report_eq
  rw [PassReport.sum_map] at hsum hreport
  -- Where nothing is declared and the pool has nothing, there is nothing to count.
  have hdeclared : ∀ q : NodeName → NodeDefinition → Bool, ∀ n, snapshot.nodes.find? n = none →
      inventory.find? n = none → (snapshot.nodes.find? n).any (q n) = false := by
    intro q n hd _
    rw [hd, Option.any_none]
  have hbefore : ∀ q : NodeName → ManagedNode → Bool, ∀ n, snapshot.nodes.find? n = none →
      inventory.find? n = none → (inventory.find? n).any (q n) = false := by
    intro q n _ hi
    rw [hi, Option.any_none]
  have hafter : ∀ q : NodeName → ManagedNode → Bool, ∀ n, snapshot.nodes.find? n = none →
      inventory.find? n = none → (p.inventory.find? n).any (q n) = false := by
    intro q n hd hi
    rw [(h.of_none hd hi).1, Option.any_none]
  constructor
  case pendingRemoval =>
    rw [hsum, ← sum_map_plan_any _ _ p.inventory _ (hafter _)]
    rfl
  case deferred =>
    rw [hsum, ← sum_map_plan_any _ _ p.inventory _ (hafter _)]
    rfl
  case reactivated =>
    rw [hsum, ← sum_map_plan_any _ _ inventory _ (hbefore _)]
    rfl
  case adopted =>
    rw [hsum, ← sum_map_plan_any _ _ snapshot.nodes _ (hdeclared _)]
    rfl
  case unchanged =>
    rw [hsum, ← sum_map_plan_any _ _ snapshot.nodes _ (hdeclared _)]
    rfl
  case updated =>
    rw [hsum, ← sum_map_plan_any _ _ snapshot.nodes _ (hdeclared _)]
    rfl
  case created =>
    rw [hsum, ← sum_map_plan_gained fun n hd hi => (h.of_none hd hi).2]
    rfl
  case removed =>
    rw [hsum, ← sum_map_plan_gained fun n hd hi => (h.of_none hd hi).2.symm]
    rfl
  case total =>
    rw [← sum_map_plan_contains snapshot.nodes inventory snapshot.nodes fun _ hd _ => hd,
      ← sum_map_plan_any _ inventory snapshot.nodes _ (hdeclared _), ← List.sum_map_add, hreport]
    simp only [← List.sum_map_add]
    refine congrArg List.sum (List.map_congr_left fun x hx => ?_)
    have hchange := Change.mem_plan.mp hx
    exact (h.of_change hchange).1.count_declared hchange (h.failure_eq_none hclean hchange)
  case dismissed =>
    rw [← sum_map_plan_any _ _ inventory _ (hbefore _), hreport]
    simp only [← List.sum_map_add]
    refine congrArg List.sum (List.map_congr_left fun x hx => ?_)
    have hchange := Change.mem_plan.mp hx
    exact (h.of_change hchange).1.count_undeclared hchange
  case size =>
    rw [← sum_map_plan_contains snapshot.nodes inventory snapshot.nodes fun _ hd _ => hd,
      ← sum_map_plan_contains snapshot.nodes inventory p.inventory fun _ hd hi =>
        (h.of_none hd hi).1, hreport]
    simp only [← List.sum_map_add]
    refine congrArg List.sum (List.map_congr_left fun x hx => ?_)
    have hchange := Change.mem_plan.mp hx
    obtain ⟨hend, hnode⟩ := h.of_change hchange
    rw [Keyed.contains, hnode]
    exact hend.count_node hchange (h.failure_eq_none hclean hchange)

end Progress.Settled

/-! ### Passes -/

/-- A pass that does not fail has followed a revision, and its report accounts for every node. The
engine may be any one that has the nodes that the pass has left. -/
theorem Pass.ensures_accounts {full : Prop} {pool : Pool} {e : LocalEngine}
    (h : pool.view.inventory.Mirrors full e.roster) (fetched : Except FetchError FileTree) :
    (run fetched pool).Ensures Roster.Reacts (fun x ρ' => ∀ report, x.1 = .ok report →
      ∃ snapshot, read fetched = .ok snapshot ∧ x.2.view.snapshot = some snapshot ∧
        ∀ e' : LocalEngine, e'.roster = ρ' →
          report.Accounts snapshot.nodes pool.view.inventory x.2.view.inventory e e') e.roster := by
  rw [run]
  split
  · intro report hreport
    cases hreport
  · next snapshot hread =>
    have hstep : ∀ (name : NodeName) (change : Change),
        snapshot.nodes.find? name = change.declared? →
        pool.view.inventory.find? name = change.before →
        ∀ ρ₁ : Roster, ρ₁ name = e.roster name →
          (change.carryOut name).Ensures Roster.Reacts (fun o ρ' =>
            Change.Ending name change (e.roster name) o (ρ' name) ∧
              ∀ n ≠ name, ρ' n = ρ₁ n) ρ₁ := by
      intro name change _ hbefore ρ₁ hsame
      have hname := (h name).congr hsame
      rw [hbefore] at hname
      rw [← hsame]
      exact (Change.ensures_ends hname).mono fun o ρ' hend => ⟨hend.ending, hend.frame⟩
    rw [Dialogue.ensures_bind]
    refine (ensures_settled (v := fun ρ => ρ)
      (P := fun n change => Change.Ending n change (e.roster n)) hstep).mono ?_
    rintro p ρ' ⟨outcome, hsettled⟩ report hreport
    rcases p.result_cases with ⟨hclean, hresult⟩ | ⟨-, first, hresult⟩
    · cases hresult.symm.trans hreport
      refine ⟨snapshot, hread, rfl, ?_⟩
      rintro e' rfl
      exact hsettled.accounts hclean
    · cases hresult.symm.trans hreport

namespace Deployment

variable {full : Prop} {d : Deployment}

/-- **A pass accounts for every node.** Let a pass among rivals end without a failure. Then it has
followed a revision, and the counts of its report are those of what the revision declares, of what
the pool had and has now, and of what the engine had and has now. -/
theorem race_accounts (hd : d.Reachable full) (fetched : Except FetchError FileTree)
    (rivals : Rivals) {report : PassReport} (h : (d.race fetched rivals).result = .ok report) :
    let r := d.race fetched rivals
    ∃ snapshot, Pass.read fetched = .ok snapshot ∧ r.pool.view.snapshot = some snapshot ∧
      report.Accounts snapshot.nodes d.inventory r.pool.view.inventory d.machinery.engine
        r.machinery.engine := by
  intro r
  have hline := hd.inLine
  obtain ⟨hhonest, hrun⟩ := (Pass.ensures_accounts hline.mirrors fetched).run
    (t := ([], d.machinery)) (v := fun t => t.2.engine.roster) (I := fun t => t.2.Honest)
    rivals.roster_reacts hline.honest
  obtain ⟨snapshot, hread, hsnapshot, haccounts⟩ := hrun report h
  -- The errands after the last call leave the nodes of the engine as they are.
  exact ⟨snapshot, hread, hsnapshot, haccounts _ (hhonest.roster_errands _)⟩

theorem result_snatching : (Sample.settled.race (.ok Sample.bareRevision) Sample.snatching).result =
    .ok { pendingRemoval := 1 } := by
  rw [race, Pass.run_of_read Sample.read_bareRevision, Sample.settled, afterRace, race,
    Pass.run_of_read Sample.read_revision]
  decide

/-- The node that is not declared any more is taken between the look and the call. It is counted
among the nodes that the pool still has. -/
theorem size_of_lost_race : ∃ snapshot,
    (Sample.settled.race (.ok Sample.bareRevision) Sample.snatching).pool.view.snapshot =
      some snapshot ∧
    (Sample.settled.race (.ok Sample.bareRevision) Sample.snatching).pool.view.inventory.size =
      snapshot.nodes.size + 1 := by
  have hd : Reachable True Sample.settled := .race (.new none .empty) _ _ _
  obtain ⟨snapshot, -, hsnapshot, haccounts⟩ := race_accounts hd _ _ result_snatching
  exact ⟨snapshot, hsnapshot, haccounts.size⟩

end Deployment

end NodeLending
