import Mathlib.Data.Finset.Card
import NodeLending.Proofs.Pass.Course
import NodeLending.Proofs.Pass.Race
import NodeLending.Proofs.Pool.Service

/-!
# Faults of single nodes

An engine may fail for some nodes. What a pass makes of the others is then the same as on a sound
engine, but for the numbers of the incarnations that it creates, and a node that the engine fails
for stays as it is. It goes into or out of service all the same. The pass counts a failure for each
of these nodes that it has called the engine for.

## Main results

* `Change.Course.of_broken`, `Change.Course.of_working`: a change for which the engine fails, and
  one for which it does not.
* `Change.Course.agree`: a change for which it does not fail comes out in one way only.
* `Deployment.breakdown_isolated`: two passes side by side.
-/

namespace NodeLending

open Engine (Call)

/-- The node in an incarnation of another number. -/
def ManagedNode.renumber (node : ManagedNode) (k : UInt64) : ManagedNode :=
  { node with handle := { node.handle with incarnation := k } }

/-- The node in an incarnation of another number. -/
def EngineNode.renumber (node : EngineNode) (k : UInt64) : EngineNode :=
  { node with handle := { node.handle with incarnation := k } }

/-! ### Changes -/

namespace Change

variable {name : NodeName} {change : Change} {o o' : Outcome} {x y y' : Option EngineNode}
  {called called' : Bool}

/-- If the engine does not fail for the node, nothing goes wrong. -/
theorem Course.of_working (h : Course none name change x o y called) : o.failure = none := by
  cases h with
  | adoptedApplied _ _ h | applied h =>
    cases h with
    | failed hwhy => cases hwhy
    | _ => rfl
  | creationFailed hwhy | removalFailed hwhy => cases hwhy
  | _ => rfl

/-- If the engine fails for the node, the node stays as it is, and is in service exactly when it is
declared. It is a failure if the engine has been called for it. -/
theorem Course.of_broken {reason : Call.Kind → String}
    (h : Course (some reason) name change x o y called) :
    y = x ∧
      o.node = change.before.map (fun m => { m with removal := .due change.declared?.isSome }) ∧
      o.failure.isSome = called := by
  cases h with
  | applied h =>
    cases h with
    | updated hwhy => cases hwhy
    | _ => exact ⟨rfl, rfl, rfl⟩
  | created hwhy | adopted hwhy | adoptedApplied hwhy | removed hwhy => cases hwhy
  | _ => exact ⟨rfl, rfl, rfl⟩

theorem Applied.agree {node : ManagedNode} {d : NodeDefinition} {x y y' : EngineNode}
    (h : Applied none node d x o y called) (h' : Applied none node d x o' y' called') :
    o = o' ∧ y = y' := by
  cases h with
  | deferred hbusy =>
    cases h' with
    | deferred => exact ⟨rfl, rfl⟩
    | updated _ hidle => exact absurd hidle hbusy
    | failed hwhy => cases hwhy
  | updated _ hidle =>
    cases h' with
    | deferred hbusy => exact absurd hidle hbusy
    | updated => exact ⟨rfl, rfl⟩
    | failed hwhy => cases hwhy
  | failed hwhy => cases hwhy

/-- If the engine does not fail for the node, the change comes out in one way only, but for the
number of an incarnation that it creates. -/
theorem Course.agree (h : Course none name change x o y called)
    (h' : Course none name change x o' y' called') :
    (x ≠ none → o.node = o'.node ∧ y = y') ∧
      (x = none → ∃ k, o.node = o'.node.map (·.renumber k) ∧ y = y'.map (·.renumber k)) := by
  cases h with
  | kept node x =>
    cases h'
    refine ⟨fun _ => ⟨rfl, rfl⟩, ?_⟩
    rintro rfl
    exact ⟨node.handle.incarnation, rfl, rfl⟩
  | created _ k =>
    cases h' with
    | created => exact ⟨fun hx => absurd rfl hx, fun _ => ⟨k, rfl, rfl⟩⟩
    | creationFailed hwhy => cases hwhy
  | adopted _ heq =>
    refine ⟨fun _ => ?_, nofun⟩
    cases h' with
    | adopted => exact ⟨rfl, rfl⟩
    | adoptedApplied _ hne => exact absurd heq hne
    | creationFailed hwhy => cases hwhy
  | adoptedApplied _ hne h =>
    refine ⟨fun _ => ?_, nofun⟩
    cases h' with
    | adopted _ heq => exact absurd heq hne
    | adoptedApplied _ _ h' =>
      obtain ⟨rfl, rfl⟩ := h.agree h'
      exact ⟨rfl, rfl⟩
    | creationFailed hwhy => cases hwhy
  | applied h =>
    refine ⟨fun _ => ?_, nofun⟩
    cases h' with
    | applied h' =>
      obtain ⟨rfl, rfl⟩ := h.agree h'
      exact ⟨rfl, rfl⟩
  | parked hbusy =>
    refine ⟨fun _ => ?_, nofun⟩
    cases h' with
    | parked => exact ⟨rfl, rfl⟩
    | removed _ hidle | removalFailed _ hidle => exact absurd hidle hbusy
  | removed _ hidle =>
    refine ⟨fun _ => ?_, nofun⟩
    cases h' with
    | parked hbusy => exact absurd hidle hbusy
    | removed => exact ⟨rfl, rfl⟩
    | removalFailed hwhy => cases hwhy
  | creationFailed hwhy | removalFailed hwhy => cases hwhy

/-- Whether the engine has to be called to create, redefine or remove the node. -/
def mustCall : Change → Option EngineNode → Bool
  | keep _, _ => false
  | create _, _ => true
  | redefine _ _, x | retire _, x => x.all (·.occupant.isNone)

theorem Applied.called_eq {why : Option (Call.Kind → String)} {node : ManagedNode}
    {d : NodeDefinition} {x y : EngineNode} (h : Applied why node d x o y called) :
    called = x.occupant.isNone := by
  cases h with
  | deferred hbusy => simpa using Option.isSome_iff_ne_none.mpr hbusy
  | updated _ hidle | failed _ hidle => simp [hidle]

/-- Whether the engine is called for a node does not depend on whether it fails for it. -/
theorem Course.called_eq {why : Option (Call.Kind → String)}
    (h : Course why name change x o y called) : called = change.mustCall x := by
  cases h with
  | applied h => exact h.called_eq
  | parked hbusy => simpa [mustCall] using Option.isSome_iff_ne_none.mpr hbusy
  | removed _ hidle | removalFailed _ hidle => simp [mustCall, hidle]
  | _ => rfl

end Change

/-! ### Passes -/

theorem length_flatMap_toList {α β : Type} (l : List α) (f : α → Option β) :
    (l.flatMap fun x => (f x).toList).length = (l.filter fun x => (f x).isSome).length := by
  induction l with
  | nil => rfl
  | cons x l ih => cases hx : f x <;> simp [hx, ih, Nat.add_comm]

/-- The nodes that an engine fails for and that it has been called to create, redefine or remove. -/
def Breakdown.called (b : Breakdown) (l : List Call) : Finset NodeName :=
  ((l.filter fun c => c.isLifecycle && (b c.node).isSome).map Call.node).toFinset

theorem Breakdown.mem_called {b : Breakdown} {l : List Call} {n : NodeName} :
    n ∈ b.called l ↔
      (b n).isSome = true ∧ (l.filter fun c => c.node = n).any Call.isLifecycle = true := by
  simp only [called, List.mem_toFinset, List.mem_map, List.mem_filter, Bool.and_eq_true,
    List.any_eq_true, decide_eq_true_eq]
  constructor
  · rintro ⟨c, ⟨hc, hlife, hb⟩, rfl⟩
    exact ⟨hb, c, ⟨hc, rfl⟩, hlife⟩
  · rintro ⟨hb, c, ⟨hc, rfl⟩, hlife⟩
    exact ⟨c, ⟨hc, hlife, hb⟩, rfl⟩

namespace Progress.Coursed

variable {b b' : Breakdown} {snapshot : Snapshot} {inventory : Inventory} {e : LocalEngine}
  {p p' : Progress} {s s' : List Call × LocalEngine} {outcome outcome' : NodeName → Change.Outcome}
  {n : NodeName}

/-- A node that the engine fails for stays as it is, and is in service exactly when it is
declared. -/
theorem of_broken (h : p.Coursed b snapshot inventory e s outcome) (hb : b n ≠ none) :
    s.2.nodes.find? n = e.nodes.find? n ∧ p.inventory.find? n =
      (inventory.find? n).map
        fun m => { m with removal := .due (snapshot.nodes.contains n) } := by
  obtain ⟨reason, hb⟩ := Option.ne_none_iff_exists'.mp hb
  cases hc : Change.of? (snapshot.nodes.find? n) (inventory.find? n) with
  | none =>
    obtain ⟨hd, hi⟩ := Change.of?_eq_none_iff.mp hc
    obtain ⟨hnode, hshown⟩ := h.of_none hd hi
    rw [hnode, hi]
    exact ⟨congrArg Prod.fst hshown, rfl⟩
  | some change =>
    obtain ⟨hbefore, hdeclared⟩ := Change.eq_of_of? hc
    obtain ⟨hcourse, hnode⟩ := h.of_change hc
    rw [hb] at hcourse
    obtain ⟨hsame, houtcome, -⟩ := hcourse.of_broken
    rw [hnode, houtcome, hbefore, Keyed.contains, hdeclared]
    exact ⟨hsame, rfl⟩

/-- Two passes make the same of a node that the engine fails for in neither, but for the number of
an incarnation that they create. -/
theorem agree (h : p.Coursed b snapshot inventory e s outcome)
    (h' : p'.Coursed b' snapshot inventory e s' outcome') (hb : b n = none) (hb' : b' n = none) :
    (e.nodes.find? n ≠ none → p.inventory.find? n = p'.inventory.find? n ∧
        s.2.nodes.find? n = s'.2.nodes.find? n) ∧
      (e.nodes.find? n = none → ∃ k,
        p.inventory.find? n = (p'.inventory.find? n).map (·.renumber k) ∧
        s.2.nodes.find? n = (s'.2.nodes.find? n).map (·.renumber k)) := by
  cases hc : Change.of? (snapshot.nodes.find? n) (inventory.find? n) with
  | none =>
    obtain ⟨hd, hi⟩ := Change.of?_eq_none_iff.mp hc
    obtain ⟨hnode, hshown⟩ := h.of_none hd hi
    obtain ⟨hnode', hshown'⟩ := h'.of_none hd hi
    have he : s.2.nodes.find? n = e.nodes.find? n := congrArg Prod.fst hshown
    have he' : s'.2.nodes.find? n = e.nodes.find? n := congrArg Prod.fst hshown'
    rw [hnode, hnode', he, he']
    refine ⟨fun _ => ⟨rfl, rfl⟩, fun hnone => ⟨0, rfl, ?_⟩⟩
    rw [hnone]
    rfl
  | some change =>
    obtain ⟨hcourse, hnode⟩ := h.of_change hc
    obtain ⟨hcourse', hnode'⟩ := h'.of_change hc
    rw [hb] at hcourse
    rw [hb'] at hcourse'
    rw [hnode, hnode']
    exact hcourse.agree hcourse'

/-- Two passes call the engine for the same nodes. -/
theorem called_eq (h : p.Coursed b snapshot inventory e s outcome)
    (h' : p'.Coursed b' snapshot inventory e s' outcome') (c : Breakdown) :
    c.called s.1 = c.called s'.1 := by
  ext n
  rw [Breakdown.mem_called, Breakdown.mem_called]
  have hcalls : (s.1.filter fun c => c.node = n).any Call.isLifecycle =
      (s'.1.filter fun c => c.node = n).any Call.isLifecycle := by
    cases hc : Change.of? (snapshot.nodes.find? n) (inventory.find? n) with
    | none =>
      obtain ⟨hd, hi⟩ := Change.of?_eq_none_iff.mp hc
      exact congrArg (·.2.any Call.isLifecycle)
        ((h.of_none hd hi).2.trans (h'.of_none hd hi).2.symm)
    | some change => exact (h.of_change hc).1.called_eq.trans (h'.of_change hc).1.called_eq.symm
  rw [hcalls]

/-- There are as many failures as nodes that the engine fails for and has been called for. -/
theorem length_failures (h : p.Coursed b snapshot inventory e s outcome) :
    p.failures.length = (b.called s.1).card := by
  -- A change has failed exactly when its node is one of these, and no two are for one node.
  have hset : b.called s.1 = (((Change.plan snapshot.nodes inventory).filter
      fun x => (outcome x.1).failure.isSome).map Prod.fst).toFinset := by
    ext n
    rw [Breakdown.mem_called, List.mem_toFinset, List.mem_map]
    constructor
    · rintro ⟨hb, hcalled⟩
      cases hc : Change.of? (snapshot.nodes.find? n) (inventory.find? n) with
      | none =>
        obtain ⟨hd, hi⟩ := Change.of?_eq_none_iff.mp hc
        have hnone : s.1.filter (fun c => c.node = n) = [] :=
          congrArg Prod.snd (h.of_none hd hi).2
        rw [hnone] at hcalled
        cases hcalled
      | some change =>
        obtain ⟨reason, hb⟩ := Option.isSome_iff_exists.mp hb
        have hcourse := (h.of_change hc).1
        rw [hb] at hcourse
        refine ⟨(n, change), List.mem_filter.mpr ⟨Change.mem_plan.mpr hc, ?_⟩, rfl⟩
        exact hcourse.of_broken.2.2.trans hcalled
    · rintro ⟨⟨n, change⟩, hx, rfl⟩
      obtain ⟨hmem, hfailure⟩ := List.mem_filter.mp hx
      have hcourse := h.holds _ hmem
      cases hb : b n with
      | none =>
        rw [hb] at hcourse
        rw [hcourse.of_working] at hfailure
        cases hfailure
      | some reason =>
        rw [hb] at hcourse
        exact ⟨rfl, hcourse.of_broken.2.2.symm.trans hfailure⟩
  have hnodup := ((Change.nodup_plan snapshot.nodes inventory).sublist
    ((List.filter_sublist (p := fun x => (outcome x.1).failure.isSome)).map Prod.fst))
  rw [hset, List.toFinset_card_of_nodup hnodup, List.length_map, ← length_flatMap_toList,
    h.failures]
  rfl

/-- The pass fails exactly when the engine has been called for a node that it fails for. -/
theorem result_cases (h : p.Coursed b snapshot inventory e s outcome) :
    (b.called s.1 = ∅ → ∃ report, p.result = .ok report) ∧
      (b.called s.1 ≠ ∅ → ∃ first, p.result = .error (.apply (b.called s.1).card first)) := by
  have hlength := h.length_failures
  rcases p.result_cases with ⟨hnil, hok⟩ | ⟨hne, herror⟩
  · rw [hnil, List.length_nil, eq_comm, Finset.card_eq_zero] at hlength
    exact ⟨fun _ => ⟨_, hok⟩, fun hcalled => absurd hlength hcalled⟩
  · rw [← hlength]
    refine ⟨fun hcalled => ?_, fun _ => herror⟩
    rw [hcalled, Finset.card_empty, List.length_eq_zero_iff] at hlength
    exact absurd hlength hne

end Progress.Coursed

/-! ### Deployments -/

theorem Breakdown.honest_of_fault? {b : Breakdown} {kind : Call.Kind} {name : NodeName} {f : Fault}
    (h : f ∈ b.fault? kind name) : f.Honest := by
  cases kind with
  | create | update | remove =>
    obtain ⟨reason, -, rfl⟩ := Option.map_eq_some_iff.mp h
    exact nofun
  | _ => cases h

namespace Deployment

variable {full : Prop} {d : Deployment}

/-- The deployment with an engine that has this breakdown. -/
def under (d : Deployment) (b : Breakdown) : Deployment := d.withMachinery (d.machinery.under b)

theorem InLine.under (h : d.InLine full) (b : Breakdown) : (d.under b).InLine full :=
  ⟨fun _ _ _ hf => Breakdown.honest_of_fault? hf, h.mirrors⟩

/-- **Faults stay where they are.** Compare a pass over a revision that is not rejected, with an
engine that fails for some nodes, with the same pass on a sound engine. Of the other nodes both make
the same, but for the numbers of incarnations that they create. The nodes that the engine fails for
stay as they are, and are in service exactly when they are declared. Both passes publish the
revision. Both call the engine to create, redefine or remove the same of these nodes; the first pass
fails exactly when there are any, and counts them. -/
theorem breakdown_isolated (hd : d.Reachable full) {tree : FileTree} {snapshot : Snapshot}
    (hread : Snapshot.read tree = .ok snapshot) (b : Breakdown) :
    let sound := (d.under fun _ => none).act (.apply (.ok tree))
    let broken := (d.under b).act (.apply (.ok tree))
    let called := b.called ((d.under b).calls (.ok tree))
    (∀ n, b n = none →
      (d.machinery.engine.nodes.find? n ≠ none →
        broken.inventory.find? n = sound.inventory.find? n ∧
        broken.machinery.engine.nodes.find? n = sound.machinery.engine.nodes.find? n) ∧
      (d.machinery.engine.nodes.find? n = none → ∃ k,
        broken.inventory.find? n = (sound.inventory.find? n).map (·.renumber k) ∧
        broken.machinery.engine.nodes.find? n =
          (sound.machinery.engine.nodes.find? n).map (·.renumber k))) ∧
    (∀ n, b n ≠ none →
      broken.machinery.engine.nodes.find? n = d.machinery.engine.nodes.find? n ∧
      broken.inventory.find? n = (d.inventory.find? n).map
        fun m => { m with removal := .due (snapshot.nodes.contains n) }) ∧
    sound.pool.view.snapshot = some snapshot ∧ broken.pool.view.snapshot = some snapshot ∧
    called = b.called ((d.under fun _ => none).calls (.ok tree)) ∧
    (called = ∅ → ∃ report, ((d.under b).applied (.ok tree)).1.1 = .ok report) ∧
    (called ≠ ∅ → ∃ first,
      ((d.under b).applied (.ok tree)).1.1 = .error (.apply called.card first)) := by
  intro sound broken called
  obtain ⟨p, outcome, heq, hp⟩ := applied_coursed (hd.inLine.under b)
    (d.machinery.suffers_under b) hread
  obtain ⟨p', outcome', heq', hp'⟩ := applied_coursed (hd.inLine.under fun _ => none)
    (d.machinery.suffers_under fun _ => none) hread
  have hpool : broken.pool = Pass.publish d.pool snapshot p := congrArg Prod.snd heq
  have hpool' : sound.pool = Pass.publish d.pool snapshot p' := congrArg Prod.snd heq'
  rw [inventory, inventory, hpool, hpool', heq]
  exact ⟨fun n hn => hp.agree hp' hn rfl, fun n hn => hp.of_broken hn, rfl, rfl,
    hp.called_eq hp' b, hp.result_cases⟩

end Deployment

namespace Sample

/-- A breakdown for the node alone. -/
def breakdown : Breakdown := fun name => if name = node then some fun _ => "no route" else none

/-- The node is there, and the engine fails for it. -/
def strained : Deployment := settled.under breakdown

end Sample

namespace Deployment

/-- The node that is not declared any more stays, and that it cannot be removed is counted. -/
theorem apply_with_broken_removal :
    (∃ first, (Sample.strained.applied (.ok Sample.bareRevision)).1.1 = .error (.apply 1 first)) ∧
      ((Sample.strained.act (.apply (.ok Sample.bareRevision))).inventory.find? Sample.node).map
        ManagedNode.removal = some .pending := by
  have hd : Reachable True Sample.settled := .race (.new none .empty) _ _ _
  obtain ⟨-, hbroken, -, -, -, -, herror⟩ :=
    breakdown_isolated hd Sample.read_bareRevision Sample.breakdown
  have hcalled : Sample.breakdown.called
      ((Sample.settled.under Sample.breakdown).calls (.ok Sample.bareRevision)) =
        {Sample.node} := by
    rw [calls, Pass.run_of_read Sample.read_bareRevision, under, Sample.settled, afterRace, race,
      Pass.run_of_read Sample.read_revision]
    decide
  rw [hcalled, Finset.card_singleton] at herror
  rw [Sample.strained]
  refine ⟨herror (Finset.singleton_ne_empty _), ?_⟩
  rw [(hbroken Sample.node (by decide)).2, Sample.settled, afterRace, race,
    Pass.run_of_read Sample.read_revision]
  decide

end Deployment

end NodeLending
