import Mathlib.Algebra.BigOperators.Group.Finset.Piecewise
import NodeLending.Proofs.Pass.Report
import NodeLending.Proofs.Pass.Sweep

/-!
# Passes name by name

A pass carries out its changes in turn, but each change is about one name, and no name has two. So
what has become of a pass can be read one name at a time: each change has an outcome of its own, the
pool ends with these outcomes, what has gone wrong is what went wrong with one of them, and under a
name without a change everything is as before.

What there is besides the pool, such as the nodes of the engine, is seen through a view that shows
something under each name. A change may alter what is shown under its own name only.

## Main definitions

* `Progress.Settled`: what has become of a number of changes, name by name.

## Main results

* `Progress.sum_map_plan_any`, `Progress.sum_map_plan_contains`: what is counted under the names
  with a change.
* `Pass.ensures_settled`: what is to be shown of a pass is shown of its changes, one name at a time.
-/

namespace NodeLending

open Engine (Call)

variable {σ β : Type} {T : Dialogue.Reaction Call Call.Answer σ} {v : σ → NodeName → β}
  {P : NodeName → Change → Change.Outcome → β → Prop}

namespace Progress

/-- What has become of a number of changes, name by name: each has an outcome, which the property
relates to what is shown under the name in the end. -/
structure Settled (P : NodeName → Change → Change.Outcome → β → Prop)
    (plan : List (NodeName × Change)) (p : Progress) (shown : NodeName → β) (p' : Progress)
    (shown' : NodeName → β) (outcome : NodeName → Change.Outcome) : Prop where
  /-- Each change has come out as it should. -/
  holds : ∀ x ∈ plan, P x.1 x.2 (outcome x.1) (shown' x.1)
  /-- The pool has what each change has made of the node. -/
  node : ∀ x ∈ plan, p'.inventory.find? x.1 = (outcome x.1).node
  /-- Under the other names everything is as before. -/
  aside : ∀ n ∉ plan.map Prod.fst,
    p'.inventory.find? n = p.inventory.find? n ∧ shown' n = shown n
  /-- What has gone wrong is what went wrong with one of the changes. -/
  failures : p'.failures = p.failures ++ plan.flatMap fun x => (outcome x.1).failure.toList
  /-- What has been done is what was done with the changes together. -/
  report : p'.report = p.report + (plan.map fun x => (outcome x.1).report).sum

/-- A change is settled before those that follow it under other names. -/
theorem Settled.cons {name : NodeName} {change : Change} {rest : List (NodeName × Change)}
    {p p' : Progress} {shown shown₁ shown' : NodeName → β} {o : Change.Outcome}
    {outcome : NodeName → Change.Outcome} (hname : name ∉ rest.map Prod.fst)
    (ho : P name change o (shown₁ name)) (hframe : ∀ n ≠ name, shown₁ n = shown n)
    (h : Settled P rest (p.note name o) shown₁ p' shown' outcome) :
    Settled P ((name, change) :: rest) p shown p' shown' (Function.update outcome name o) := by
  have hrest : ∀ x ∈ rest, Function.update outcome name o x.1 = outcome x.1 := by
    intro x hx
    exact Function.update_of_ne (fun heq => hname (List.mem_map.mpr ⟨x, hx, heq⟩)) _ _
  obtain ⟨hnode, hshown⟩ := h.aside name hname
  constructor
  · rintro x (_ | ⟨_, hx⟩)
    · rw [Function.update_self, hshown]
      exact ho
    · rw [hrest x hx]
      exact h.holds x hx
  · rintro x (_ | ⟨_, hx⟩)
    · rw [Function.update_self, hnode, find?_note, if_pos rfl]
    · rw [hrest x hx]
      exact h.node x hx
  · intro n hn
    rw [List.map_cons, List.mem_cons, not_or] at hn
    obtain ⟨hnode', hshown'⟩ := h.aside n hn.2
    rw [hnode', find?_note, if_neg hn.1, hshown', hframe n hn.1]
    exact ⟨rfl, rfl⟩
  · have hflat : (rest.flatMap fun x => (Function.update outcome name o x.1).failure.toList) =
        rest.flatMap fun x => (outcome x.1).failure.toList :=
      List.flatMap_congr fun x hx => by rw [hrest x hx]
    rw [h.failures, List.flatMap_cons, Function.update_self, hflat, ← List.append_assoc]
    rfl
  · have hmap : (rest.map fun x => (Function.update outcome name o x.1).report) =
        rest.map fun x => (outcome x.1).report :=
      List.map_congr_left fun x hx => by rw [hrest x hx]
    rw [h.report, List.map_cons, List.sum_cons, Function.update_self, hmap, ← add_assoc]
    rfl

/-- Changes under different names are settled, if each is shown to come out as it should from what
is shown under its name in the beginning. -/
theorem ensures_settled {plan : List (NodeName × Change)} (hnodup : (plan.map Prod.fst).Nodup)
    {s : σ} (hstep : ∀ x ∈ plan, ∀ s₁, v s₁ x.1 = v s x.1 →
      (x.2.carryOut x.1).Ensures T
        (fun o s' => P x.1 x.2 o (v s' x.1) ∧ ∀ n ≠ x.1, v s' n = v s₁ n) s₁)
    (p : Progress) :
    (p.carryOut plan).Ensures T
      (fun p' s' => ∃ outcome, Settled P plan p (v s) p' (v s') outcome) s := by
  induction plan generalizing p s with
  | nil =>
    exact ⟨fun _ => ⟨none, {}, none⟩, by simp, by simp, fun _ _ => ⟨rfl, rfl⟩, by simp, by simp⟩
  | cons x rest ih =>
    obtain ⟨name, change⟩ := x
    obtain ⟨hname, hrest⟩ := List.nodup_cons.mp hnodup
    rw [carryOut, Dialogue.ensures_bind]
    refine (hstep _ List.mem_cons_self s rfl).mono ?_
    rintro o s₁ ⟨ho, hframe⟩
    have hstep' : ∀ x ∈ rest, ∀ s₂, v s₂ x.1 = v s₁ x.1 → (x.2.carryOut x.1).Ensures T
        (fun o s' => P x.1 x.2 o (v s' x.1) ∧ ∀ n ≠ x.1, v s' n = v s₂ n) s₂ := by
      intro x hx s₂ hs₂
      -- The changes before have left what is shown under this name as it was.
      have hne : x.1 ≠ name := fun heq => hname (List.mem_map.mpr ⟨x, hx, heq⟩)
      exact hstep x (List.mem_cons_of_mem _ hx) s₂ (hs₂.trans (hframe x.1 hne))
    refine (ih hrest hstep' _).mono ?_
    rintro p' s' ⟨outcome, h⟩
    exact ⟨_, h.cons hname ho hframe⟩

end Progress

/-! ### Passes -/

namespace Change

variable {declared : Keyed NodeName NodeDefinition} {inventory : Inventory} {n : NodeName}

/-- Nothing is done for a name only if it is not declared and the pool does not have it. -/
theorem of?_eq_none_iff {d : Option NodeDefinition} {node : Option ManagedNode} :
    of? d node = none ↔ d = none ∧ node = none := by
  cases d <;> cases node <;> simp [of?]

/-- A name has no change exactly when it is not declared and the pool does not have it. -/
theorem not_mem_map_fst_plan : n ∉ (plan declared inventory).map Prod.fst ↔
    declared.find? n = none ∧ inventory.find? n = none := by
  rw [← of?_eq_none_iff, Option.eq_none_iff_forall_ne_some, List.mem_map]
  constructor
  · intro hn change hc
    exact hn ⟨(n, change), mem_plan.mpr hc, rfl⟩
  · rintro hn ⟨⟨_, change⟩, hc, rfl⟩
    exact hn change (mem_plan.mp hc)

end Change

namespace Progress.Settled

variable {snapshot : Snapshot} {inventory : Inventory} {p : Progress} {shown shown' : NodeName → β}
  {outcome : NodeName → Change.Outcome} {n : NodeName} {change : Change}

/-- A name that a revision has a change for comes out with the outcome of that change. -/
theorem of_change (h : Settled P (Change.plan snapshot.nodes inventory) (.start inventory) shown p
    shown' outcome)
    (hn : Change.of? (snapshot.nodes.find? n) (inventory.find? n) = some change) :
    P n change (outcome n) (shown' n) ∧ p.inventory.find? n = (outcome n).node :=
  ⟨h.holds (n, change) (Change.mem_plan.mpr hn), h.node (n, change) (Change.mem_plan.mpr hn)⟩

/-- Under a name that is not declared and that the pool does not have nothing is done. -/
theorem of_none (h : Settled P (Change.plan snapshot.nodes inventory) (.start inventory) shown p
    shown' outcome) (hd : snapshot.nodes.find? n = none) (hi : inventory.find? n = none) :
    p.inventory.find? n = none ∧ shown' n = shown n := by
  obtain ⟨hnode, hshown⟩ := h.aside n (Change.not_mem_map_fst_plan.mpr ⟨hd, hi⟩)
  exact ⟨hnode.trans hi, hshown⟩

/-- What has gone wrong with a change has gone wrong with the pass. -/
theorem failure_eq_none (h : Settled P (Change.plan snapshot.nodes inventory) (.start inventory)
    shown p shown' outcome) (hclean : p.failures = [])
    (hn : Change.of? (snapshot.nodes.find? n) (inventory.find? n) = some change) :
    (outcome n).failure = none := by
  have hmem : (n, change) ∈ Change.plan snapshot.nodes inventory := Change.mem_plan.mpr hn
  rw [h.failures, List.append_eq_nil_iff, List.flatMap_eq_nil_iff] at hclean
  exact Option.toList_eq_nil_iff.mp (hclean.2 _ hmem)

/-- The report of a pass is the sum of those of its changes. -/
theorem report_eq (h : Settled P (Change.plan snapshot.nodes inventory) (.start inventory) shown p
    shown' outcome) :
    p.report = ((Change.plan snapshot.nodes inventory).map fun x => (outcome x.1).report).sum :=
  h.report.trans (zero_add _)

end Progress.Settled

/-! ### Counting by names -/

namespace Progress

variable (declared : Keyed NodeName NodeDefinition) (inventory : Inventory)

/-- The changes of a pass are counted by their names. -/
theorem sum_map_plan (g : NodeName → Nat) :
    ((Change.plan declared inventory).map fun x => g x.1).sum =
      ∑ n ∈ ((Change.plan declared inventory).map Prod.fst).toFinset, g n := by
  rw [List.sum_toFinset g (Change.nodup_plan _ _), List.map_map]
  rfl

/-- The entries of a collection that have a property are counted by the names with a change, if no
other name has such an entry. -/
theorem sum_map_plan_any {α : Type} (m : Keyed NodeName α) (q : NodeName → α → Bool)
    (h : ∀ n, declared.find? n = none → inventory.find? n = none → (m.find? n).any (q n) = false) :
    ((Change.plan declared inventory).map fun x =>
      if (m.find? x.1).any (q x.1) then 1 else 0).sum = (m.filter q).size := by
  have hkeys : ((Change.plan declared inventory).map Prod.fst).toFinset.filter
      (fun n => (m.find? n).any (q n)) = (m.filter q).keys.toFinset := by
    ext n
    rw [Finset.mem_filter, List.mem_toFinset, List.mem_toFinset, Keyed.mem_keys_filter,
      Option.any_eq_true]
    refine ⟨And.right, fun hn => ⟨?_, hn⟩⟩
    by_contra hnone
    obtain ⟨hd, hi⟩ := Change.not_mem_map_fst_plan.mp hnone
    have hfalse := h n hd hi
    rw [(Option.any_eq_true _ _).mpr hn] at hfalse
    cases hfalse
  rw [sum_map_plan declared inventory fun n => if (m.find? n).any (q n) then 1 else 0,
    ← Finset.card_filter, hkeys, List.toFinset_card_of_nodup (Keyed.nodup_keys _), Keyed.keys,
    List.length_map, Keyed.size]

/-- All entries of a collection are counted by the names with a change, if it has no other names. -/
theorem sum_map_plan_contains {α : Type} (m : Keyed NodeName α)
    (h : ∀ n, declared.find? n = none → inventory.find? n = none → m.find? n = none) :
    ((Change.plan declared inventory).map fun x => if m.contains x.1 then 1 else 0).sum =
      m.size := by
  have hsum := sum_map_plan_any declared inventory m (fun _ _ => true) fun n hd hi => by
    rw [h n hd hi, Option.any_none]
  have hsize : (m.filter fun _ _ => true).size = m.size :=
    congrArg List.length (List.filter_true m.entries)
  rw [← hsize, ← hsum]
  refine congrArg List.sum (List.map_congr_left fun x _ => ?_)
  rw [Option.any_true, Keyed.contains]

end Progress

/-- A failed pass names as many failures as there are. -/
theorem Progress.result_cases (p : Progress) :
    p.failures = [] ∧ p.result = .ok p.report ∨
      p.failures ≠ [] ∧ ∃ first, p.result = .error (.apply p.failures.length first) := by
  rw [result]
  cases p.failures with
  | nil => exact Or.inl ⟨rfl, rfl⟩
  | cons first rest => exact Or.inr ⟨List.cons_ne_nil _ _, first, rfl⟩

/-- A pass is settled, if each of its changes is shown to come out as it should from what is shown
under its name in the beginning. -/
theorem Pass.ensures_settled {snapshot : Snapshot} {inventory : Inventory} {s : σ}
    (hstep : ∀ (name : NodeName) (change : Change), snapshot.nodes.find? name = change.declared? →
      inventory.find? name = change.before → ∀ s₁, v s₁ name = v s name →
        (change.carryOut name).Ensures T (fun o s' =>
          P name change o (v s' name) ∧ ∀ n ≠ name, v s' n = v s₁ n) s₁) :
    (perform snapshot inventory).Ensures T (fun p s' => ∃ outcome,
      Progress.Settled P (Change.plan snapshot.nodes inventory) (.start inventory) (v s) p
        (v s') outcome) s := by
  refine Progress.ensures_settled (Change.nodup_plan _ _) (fun x hx => ?_) _
  obtain ⟨hbefore, hdeclared⟩ := Change.eq_of_mem_plan hx
  exact hstep x.1 x.2 hdeclared hbefore

end NodeLending
