import NodeLending.Proofs.Deployment.Proceed
import NodeLending.Proofs.Pass.Renaming

/-!
# The reference for a pass

What a pass makes of a name can be told from three things alone: what the revision declares under
the name, what the pool has there, and what the engine has there. A table of these cases is the
reference. A pass works through lists of changes, one list after the other, with a pool that all of
them write to; on an engine that does not fail it nevertheless does under every name what the table
says, whatever it does under the others.

The pool and the engine are not taken each for itself. The engine has every node that the pool has,
with the same handle and definition, so that together they have nothing, a node that only the engine
knows, or one that both know. The table takes a name from one of these states to another.

Only the number of a new incarnation is not in the table. It is the number of the engine's counter,
raised by the nodes that the pass has created before.

## Main definitions

* `Holding`, `Deployment.Holds`: what the pool and the engine have under a name.
* `Change.reference`: the table.
* `Deployment.Fresh`: the number of a new incarnation.

## Main results

* `Change.Course.eq_reference`: a change does what the table says.
* `Deployment.proceed_eq_reference`: so does a pass, under every name.
-/

namespace NodeLending

/-- What the pool and the engine have under a name, where the engine has what the pool has. -/
inductive Holding where
  /-- Neither has a node. -/
  | vacant
  /-- The engine has a node that the pool does not know. -/
  | stray (x : EngineNode)
  /-- Both have the node. The engine also has its occupant. -/
  | managed (node : ManagedNode) (occupant : Option ReservationId)
  deriving DecidableEq, Repr

namespace Holding

/-- The node of the pool. -/
def node? : Holding → Option ManagedNode
  | managed node _ => some node
  | _ => none

/-- The node of the engine. It has the handle and the definition that the pool has for it. -/
def engineNode? : Holding → Option EngineNode
  | vacant => none
  | stray x => some x
  | managed node occupant => some ⟨node.handle, node.definition, occupant⟩

end Holding

namespace Change

/-- What a pass makes of a name. It depends on what is declared and on what the pool and the engine
have; `k` numbers a new incarnation. -/
def reference (n : NodeName) (k : UInt64) : Option NodeDefinition → Holding → Holding
  | some d, .vacant => .managed ⟨n, d, ⟨n, k⟩, .active⟩ none
  | some d, .stray x =>
    let definition := if x.occupant = none then d else x.definition
    .managed ⟨n, definition, x.handle, .active⟩ x.occupant
  | some d, .managed node occupant =>
    let definition := if occupant = none then d else node.definition
    .managed { node with definition, removal := .active } occupant
  | none, .vacant => .vacant
  | none, .stray x => .stray x
  | none, .managed node occupant =>
    if occupant = none then .vacant else .managed { node with removal := .pending } occupant

variable {n : NodeName} {change : Change} {d : NodeDefinition} {x : EngineNode} {o : Outcome}
  {y : Option EngineNode} {called : Bool}

/-- The nodes of the table have the name for which they are there. -/
theorem name_reference {k : UInt64} {declared : Option NodeDefinition} {before : Holding}
    (h : ∀ m ∈ before.node?, m.name = n) :
    ∀ m ∈ (reference n k declared before).node?, m.name = n := by
  cases declared with
  | some d =>
    cases before with
    | vacant | stray x =>
      rintro _ ⟨⟩
      rfl
    | managed node occupant =>
      rintro _ ⟨⟩
      exact h node rfl
  | none =>
    cases before with
    | vacant | stray x => nofun
    | managed node occupant =>
      rw [reference]
      split
      · nofun
      · rintro _ ⟨⟩
        exact h node rfl

/-- A declared node that the pool does not know is taken over, and is defined as it is declared
unless it is in use. -/
theorem Course.of_adopt (h : Course none n (create d) (some x) o y called) :
    let definition := if x.occupant = none then d else x.definition
    o.node = some ⟨n, definition, x.handle, .active⟩ ∧ y = some { x with definition } := by
  intro definition
  cases h with
  | creationFailed hwhy => cases hwhy
  | adopted _ heq =>
    subst heq
    have hd : definition = x.definition := ite_self _
    rw [hd]
    exact ⟨rfl, rfl⟩
  | adoptedApplied _ _ h =>
    cases h with
    | deferred hbusy =>
      have hd : definition = x.definition := if_neg hbusy
      rw [hd]
      exact ⟨rfl, rfl⟩
    | updated _ hidle =>
      have hd : definition = d := if_pos hidle
      rw [hd]
      exact ⟨rfl, rfl⟩
    | failed hwhy => cases hwhy

/-- A change does what the table says. -/
theorem Course.eq_reference {declared : Option NodeDefinition} {before : Holding}
    (h : Course none n change before.engineNode? o y called)
    (hchange : of? declared before.node? = some change) (hname : ∀ m ∈ before.node?, m.name = n) :
    ∃ k, o.node = (reference n k declared before).node? ∧
      y = (reference n k declared before).engineNode? := by
  cases declared with
  | some d =>
    cases before with
    | vacant =>
      obtain rfl := Option.some.inj hchange
      obtain ⟨k, rfl, hnode⟩ := h.of_create
      exact ⟨k, hnode, rfl⟩
    | stray x =>
      obtain rfl := Option.some.inj hchange
      exact ⟨0, h.of_adopt⟩
    | managed m occupant =>
      obtain rfl := hname m rfl
      obtain ⟨hbefore, hdeclared⟩ := eq_of_of? hchange
      exact ⟨0, (h.of_declared hbefore.symm hdeclared.symm).symm⟩
  | none =>
    cases before with
    | vacant | stray x => cases hchange
    | managed m occupant =>
      obtain rfl := hname m rfl
      obtain rfl := Option.some.inj hchange
      refine ⟨0, ?_⟩
      by_cases hidle : occupant = none
      · rw [reference, if_pos hidle]
        exact h.of_retire hidle
      · rw [reference, if_neg hidle]
        exact h.of_retire_of_busy hidle

end Change

namespace Deployment

variable {full : Prop} {d : Deployment} {s : Snapshot} {tree : FileTree} {n : NodeName}

/-- What the pool and the engine have under a name. The node of the pool has the name too. -/
structure Holds (d : Deployment) (n : NodeName) (holding : Holding) : Prop where
  /-- The pool has what is held. -/
  node : d.inventory.find? n = holding.node?
  /-- So has the engine. -/
  engineNode : d.machinery.engine.nodes.find? n = holding.engineNode?
  /-- The pool has it for the name. -/
  named : ∀ node ∈ holding.node?, node.name = n

/-- Where the engine has what the pool has, something is held under every name. -/
theorem InLine.exists_holds (h : d.InLine full) (n : NodeName) : ∃ before, d.Holds n before := by
  cases hnode : d.inventory.find? n with
  | none =>
    cases hx : d.machinery.engine.nodes.find? n with
    | none => exact ⟨.vacant, hnode, hx, nofun⟩
    | some x => exact ⟨.stray x, hnode, hx, nofun⟩
  | some m =>
    obtain ⟨hname, occupant, hx⟩ := h.shown hnode
    refine ⟨.managed m occupant, hnode, hx, ?_⟩
    rintro _ ⟨⟩
    exact hname

/-! ### One pass -/

section Sound

variable (h : d.InLine full) (hsound : d.machinery.Sound) (hread : Snapshot.read tree = .ok s)

include h hsound hread

/-- Under a name that is not declared and that the pool does not have a pass does nothing. -/
theorem find?_apply_of_none (hdeclared : s.nodes.find? n = none)
    (hnode : d.inventory.find? n = none) :
    (d.act (.apply (.ok tree))).inventory.find? n = none ∧
      (d.act (.apply (.ok tree))).machinery.engine.nodes.find? n =
        d.machinery.engine.nodes.find? n := by
  obtain ⟨p, outcome, heq, hp⟩ := applied_coursed h hsound.suffers hread
  obtain ⟨hnone, hsame⟩ := hp.of_none hdeclared hnode
  have hpool : (d.act (.apply (.ok tree))).pool = Pass.publish d.pool s p := congrArg Prod.snd heq
  rw [inventory, hpool]
  exact ⟨hnone, congrArg Prod.fst hsame⟩

/-- Under every name a pass does what the table says. -/
theorem exists_reference {before : Holding} (hbefore : d.Holds n before) :
    ∃ k, (d.act (.apply (.ok tree))).Holds n
      (Change.reference n k (s.nodes.find? n) before) := by
  cases hchange : Change.of? (s.nodes.find? n) (d.inventory.find? n) with
  | none =>
    obtain ⟨hdeclared, hnode⟩ := Change.of?_eq_none_iff.mp hchange
    obtain ⟨hnone, hsame⟩ := find?_apply_of_none h hsound hread hdeclared hnode
    have hstays : Change.reference n 0 (s.nodes.find? n) before = before := by
      rw [hdeclared]
      cases before with
      | vacant | stray x => rfl
      | managed m occupant =>
        rw [hbefore.node] at hnode
        cases hnode
    refine ⟨0, ?_⟩
    rw [hstays]
    exact ⟨hnone.trans (hnode.symm.trans hbefore.node), hsame.trans hbefore.engineNode,
      hbefore.named⟩
  | some change =>
    obtain ⟨o, called, hcourse, hnode⟩ := course_applied h hsound hread hchange
    rw [hbefore.engineNode] at hcourse
    rw [hbefore.node] at hchange
    obtain ⟨k, hk, hx⟩ := hcourse.eq_reference hchange hbefore.named
    exact ⟨k, hnode.trans hk, hx, Change.name_reference hbefore.named⟩

/-- A pass publishes the revision and clears the error of the pool. -/
theorem published_of_sound : (∃ report, (d.applied (.ok tree)).1.1 = .ok report) ∧
    (d.act (.apply (.ok tree))).pool.view.snapshot = some s ∧
    (d.act (.apply (.ok tree))).pool.error = none := by
  obtain ⟨report, hreport⟩ := exists_report hsound hread h
  obtain ⟨p, heq⟩ := applied_of_read_ok (d := d) (f := .ok tree) (s := s) (by
    rw [Pass.read, hread]
    rfl)
  have hresult : p.result = .ok report := by rw [← hreport, heq]
  have hpool : (d.act (.apply (.ok tree))).pool = Pass.publish d.pool s p := congrArg Prod.snd heq
  refine ⟨⟨report, hreport⟩, ?_, ?_⟩
  · rw [hpool]
    rfl
  · rw [hpool, Pass.publish, hresult]
    rfl

end Sound

/-! ### Runs -/

/-- The number `k` of an incarnation that comes under a name in the last act of a run. It is the
number of the counter, raised by the nodes that have come earlier in the act. As long as not all
numbers have been given out, it is larger than that of any node that has been there in the run, and
no other node has it. -/
structure Fresh (d : Deployment) (run : List Act) (a : Act) (n : NodeName) (k : UInt64) : Prop where
  /-- It is the number of the counter, raised by the nodes that have come earlier in the act. -/
  counted : ∃ earlier later, (d.acts run).movements a = earlier ++ .arrival n :: later ∧
    k = (d.acts run).machinery.engine.next + UInt64.ofNat (Movement.arrivals earlier)
  /-- No node had it before. -/
  later : Movement.arrivals (d.history (run ++ [a])) < 2 ^ 64 → ∀ l, l <+: run → ∀ n' x,
    (d.acts l).machinery.engine.nodes.find? n' = some x → x.handle.incarnation < k
  /-- No other node has it now. -/
  own : Movement.arrivals (d.history (run ++ [a])) < 2 ^ 64 → ∀ n' ≠ n, ∀ x,
    (d.acts (run ++ [a])).machinery.engine.nodes.find? n' = some x → x.handle.incarnation ≠ k

/-- The number of a node that comes in the last act of a run. -/
theorem fresh_of_find? (repository : Option String) (files : FileTree) {run : List Act} {a : Act}
    {x : EngineNode}
    (hnone : ((new repository files).acts run).machinery.engine.nodes.find? n = none)
    (hx : (((new repository files).acts run).act a).machinery.engine.nodes.find? n = some x) :
    (new repository files).Fresh run a n x.handle.incarnation := by
  have hlast : (new repository files).acts (run ++ [a]) =
      ((new repository files).acts run).act a := acts_append _ run [a]
  refine ⟨?_, fun hk l hl n' x' hx' => incarnation_lt repository files hk hnone hx hl hx', ?_⟩
  · rcases (moves_act _ a).given (LocalEngine.handle?_register hx) with hold | hgiven
    · rw [register, LocalEngine.handle?_register_eq_none.mpr hnone] at hold
      cases hold
    · obtain ⟨earlier, later, hmovements, hhandle⟩ := hgiven
      exact ⟨earlier, later, hmovements, by rw [hhandle]; rfl⟩
  · intro hk n' hne x' hx' heq
    have hx₁ : ((new repository files).acts (run ++ [a])).machinery.engine.nodes.find? n =
        some x := hlast ▸ hx
    exact hne ((numbered_acts repository files hk).once n' n x'.handle x.handle
      (LocalEngine.handle?_register hx') (LocalEngine.handle?_register hx₁) heq)

/-- **A pass does what the table says.** After a run of orderly acts, in which the pool may have
forgotten its nodes, the engine has what the pool has. A pass goes on with a tree that can be read,
and the engine is sound. The pass does not fail, it publishes the revision, it clears the error of
the pool and leaves the reservations alone. Under every name it does what the table says, and the
incarnations that it creates are new. -/
theorem proceed_eq_reference (hread : Snapshot.read tree = .ok s) (repository : Option String)
    (files : FileTree) {run : List Act} (hrun : ∀ a ∈ run, a.Orderly) :
    let d := (new repository files).acts run
    (∀ n, ∃ before, d.Holds n before) ∧
    (d.machinery.Sound →
      let result := (d.proceed (some (.ok tree))).1
      let d' := (d.proceed (some (.ok tree))).2
      (∃ report, result = .ok report) ∧ d'.pool.view.snapshot = some s ∧ d'.pool.error = none ∧
      d'.queue = d.queue ∧
      ∀ n before, d.Holds n before → ∃ k,
        d'.Holds n (Change.reference n k (s.nodes.find? n) before) ∧
        (s.nodes.find? n ≠ none → before = .vacant →
          (new repository files).Fresh run (.apply (.ok tree)) n k)) := by
  intro d
  have hd : d.InLine False :=
    ((Reachable.new repository files).acts hrun nofun).inLine
  refine ⟨hd.exists_holds, fun hsound => ?_⟩
  intro result d'
  obtain ⟨hresult, hsnapshot, herror⟩ := published_of_sound hd hsound hread
  refine ⟨hresult, hsnapshot, herror, rfl, fun n before hbefore => ?_⟩
  obtain ⟨k, hk⟩ := exists_reference hd hsound hread hbefore
  refine ⟨k, hk, fun hdeclared hvacant => ?_⟩
  -- The node is created, and `k` is the number that the engine has given to it.
  subst hvacant
  obtain ⟨definition, hdefinition⟩ := Option.ne_none_iff_exists'.mp hdeclared
  rw [hdefinition] at hk
  exact fresh_of_find? repository files hbefore.engineNode hk.engineNode

/-- A node is created, somebody takes it, and the pool forgets it. -/
def lapse : List Act :=
  [.apply (.ok Sample.revision), .call (.submit ⟨⟨1⟩, Sample.node, Sample.party.name⟩), .reset]

theorem proceed_of_forgotten_and_used :
    (((new none .empty).acts lapse).proceed (some (.ok Sample.revision))).2.inventory.find?
        Sample.node = some ⟨Sample.node, Sample.definition, Sample.handle, .active⟩ ∧
      (((new none .empty).acts lapse).proceed
        (some (.ok Sample.revision))).2.machinery.engine.nodes.find? Sample.node =
          some ⟨Sample.handle, Sample.definition, some ⟨1⟩⟩ := by
  have hrun : ∀ a ∈ lapse, a.Orderly := by
    simp [lapse, Act.Orderly, Engine.Call.isLifecycle]
  have hstate : ((new none .empty).acts lapse).machinery.Sound ∧
      ((new none .empty).acts lapse).Holds Sample.node
        (.stray ⟨Sample.handle, Sample.definition, some ⟨1⟩⟩) := by
    simp only [acts, lapse, List.foldl_cons, List.foldl_nil, act, applied]
    rw [Pass.run_of_read Sample.read_revision]
    exact ⟨⟨fun _ _ => rfl, rfl⟩, rfl, by decide, fun _ hm => absurd hm (Option.not_mem_none _)⟩
  obtain ⟨hsound, hholds⟩ := hstate
  obtain ⟨-, -, -, -, htable⟩ :=
    (proceed_eq_reference Sample.read_revision none .empty hrun).2 hsound
  obtain ⟨k, hk, -⟩ := htable Sample.node _ hholds
  exact ⟨hk.node, hk.engineNode⟩

end Deployment

end NodeLending
