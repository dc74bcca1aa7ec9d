import NodeLending.Engine.Fault
import NodeLending.Proofs.Dialogue.Ensures

/-!
# What a call does to an engine

All that an engine in memory may do when it is called is listed once, with the condition under which
it does it. Whatever is said of engines elsewhere is a case analysis of this list.

A fault keeps a call from the engine, so an engine that has faults does what a sound one does, or
nothing at all.

## Main definitions

* `Engine.Call.isLifecycle`, `Engine.Call.isExecution`: calls that change nodes, and calls that
  start or end reservations.
* `LocalEngine.put`, `LocalEngine.drop`: an engine with another node under a name, or with none.
* `LocalEngine.Transition`: the answers of an engine with the engine after them.
* `LocalEngine.Reacts`: the same for an engine that may have faults.

## Main results

* `LocalEngine.transition`, `Machinery.reacts`: the lists are complete.
* `LocalEngine.Reacts.find?_of_occupied`: a node in use stays as it is until its reservation ends.
* `LocalEngine.Reacts.occupant?_eq`: only starting and ending reservations changes who uses a node.
-/

namespace NodeLending

namespace Engine.Call

/-- Whether the call creates, redefines or removes a node. -/
def isLifecycle : Call → Bool
  | create _ _ | update _ _ | remove _ => true
  | _ => false

/-- Whether the call starts or ends a reservation. -/
def isExecution : Call → Bool
  | submit _ | complete _ => true
  | _ => false

/-- Whether the call creates a node. -/
def isCreate : Call → Bool
  | create _ _ => true
  | _ => false

/-- Whether the call removes a node. -/
def isRemove : Call → Bool
  | remove _ => true
  | _ => false

/-- Whether the call is for a node that must be there. -/
def needsNode : Call → Bool
  | update _ _ | remove _ | submit _ | complete _ => true
  | _ => false

/-- Whether the call is for a node that must be there and idle. -/
def needsIdle : Call → Bool
  | update _ _ | remove _ | submit _ => true
  | _ => false

theorem needsNode_of_needsIdle {c : Call} (h : c.needsIdle = true) : c.needsNode = true := by
  cases c with
  | update | remove | submit => rfl
  | _ => cases h

end Engine.Call

open Engine (Call)

namespace LocalEngine

variable {e e' : LocalEngine} {name n : NodeName} {node : EngineNode}

/-! ### One node of an engine -/

/-- The engine with a node under a name. -/
def put (e : LocalEngine) (name : NodeName) (node : EngineNode) : LocalEngine :=
  { e with nodes := e.nodes.insert name node }

/-- The engine without the node under a name. -/
def drop (e : LocalEngine) (name : NodeName) : LocalEngine :=
  { e with nodes := e.nodes.erase name }

@[simp] theorem find?_put :
    (e.put name node).nodes.find? n = if n = name then some node else e.nodes.find? n :=
  Keyed.find?_insert ..

@[simp] theorem find?_drop :
    (e.drop name).nodes.find? n = if n = name then none else e.nodes.find? n :=
  Keyed.find?_erase ..

theorem occupant?_of_find? (h : e.nodes.find? n = some node) : e.occupant? n = node.occupant := by
  rw [occupant?, h, Option.bind_some]

theorem occupant?_of_find?_none (h : e.nodes.find? n = none) : e.occupant? n = none := by
  rw [occupant?, h, Option.bind_none]

theorem isIdle_of_find? (h : e.nodes.find? n = some node) (hr : node.occupant = none) :
    e.isIdle n = true :=
  isIdle_iff.mpr ((occupant?_of_find? h).trans hr)

@[simp] theorem occupant?_put :
    (e.put name node).occupant? n = if n = name then node.occupant else e.occupant? n := by
  rw [occupant?, find?_put]
  split <;> rfl

@[simp] theorem occupant?_drop :
    (e.drop name).occupant? n = if n = name then none else e.occupant? n := by
  rw [occupant?, find?_drop]
  split <;> rfl

/-- A reservation occupies a node exactly when it is the occupant of a node that is there. -/
theorem occupant?_eq_some_iff {r : ReservationId} :
    e.occupant? n = some r ↔ ∃ node, e.nodes.find? n = some node ∧ node.occupant = some r := by
  rw [occupant?, Option.bind_eq_some_iff]

/-! ### Transitions -/

/-- Why a call is refused. -/
inductive Refusal (e : LocalEngine) : Call → EngineError → Prop
  | failing {c : Call} (hc : c.isLifecycle = true) (h : e.failing = true) : Refusal e c toldToFail
  | alreadyExists {name : NodeName} {d : NodeDefinition} (h : e.nodes.find? name ≠ none) :
      Refusal e (.create name d) (.alreadyExists name)
  | unknownNode {c : Call} (hc : c.needsNode = true) (h : e.nodes.find? c.node = none) :
      Refusal e c (.unknownNode c.node)
  | occupied {c : Call} {node : EngineNode} {r : ReservationId} (hc : c.needsIdle = true)
      (h : e.nodes.find? c.node = some node) (hr : node.occupant = some r) :
      Refusal e c (.occupied c.node r)
  | notRunning {b : Binding} {node : EngineNode} (h : e.nodes.find? b.node = some node)
      (hr : node.occupant ≠ some b.reservation) :
      Refusal e (.complete b) (.notRunning b.node b.reservation)

/-- The answers of an engine, each with the engine after it. A refusal changes nothing. -/
inductive Transition (e : LocalEngine) : (c : Call) → c.Answer → LocalEngine → Prop
  | isIdle (name : NodeName) : Transition e (.isIdle name) (e.isIdle name) e
  | existing (name : NodeName) : Transition e (.existing name) (e.existing name) e
  | created {name : NodeName} {d : NodeDefinition} (hf : e.failing = false)
      (h : e.nodes.find? name = none) :
      Transition e (.create name d) (.ok ⟨name, e.next⟩)
        { e.put name ⟨⟨name, e.next⟩, d, none⟩ with next := e.next + 1 }
  | updated {handle : NodeHandle} {d : NodeDefinition} {node : EngineNode}
      (hf : e.failing = false) (h : e.nodes.find? handle.name = some node)
      (hr : node.occupant = none) :
      Transition e (.update handle d) (.ok node.handle)
        (e.put handle.name { node with definition := d })
  | removed {handle : NodeHandle} {node : EngineNode} (hf : e.failing = false)
      (h : e.nodes.find? handle.name = some node) (hr : node.occupant = none) :
      Transition e (.remove handle) (.ok ()) (e.drop handle.name)
  | submitted {b : Binding} {node : EngineNode} (h : e.nodes.find? b.node = some node)
      (hr : node.occupant = none) :
      Transition e (.submit b) (.ok ()) (e.put b.node { node with occupant := some b.reservation })
  | completed {b : Binding} {node : EngineNode} (h : e.nodes.find? b.node = some node)
      (hr : node.occupant = some b.reservation) :
      Transition e (.complete b) (.ok b) (e.put b.node { node with occupant := none })
  | createRefused {name : NodeName} {d : NodeDefinition} {err : EngineError}
      (h : e.Refusal (.create name d) err) : Transition e (.create name d) (.error err) e
  | updateRefused {handle : NodeHandle} {d : NodeDefinition} {err : EngineError}
      (h : e.Refusal (.update handle d) err) : Transition e (.update handle d) (.error err) e
  | removeRefused {handle : NodeHandle} {err : EngineError}
      (h : e.Refusal (.remove handle) err) : Transition e (.remove handle) (.error err) e
  | submitRefused {b : Binding} {err : EngineError}
      (h : e.Refusal (.submit b) err) : Transition e (.submit b) (.error err) e
  | completeRefused {b : Binding} {err : EngineError}
      (h : e.Refusal (.complete b) err) : Transition e (.complete b) (.error err) e

/-- A node is either idle, or there is a reason not to give it out. -/
theorem idleNode_cases (e : LocalEngine) {c : Call} (hc : c.needsIdle = true) :
    (∃ node, e.nodes.find? c.node = some node ∧ node.occupant = none ∧
      e.idleNode c.node = .ok node) ∨
    ∃ err, e.Refusal c err ∧ e.idleNode c.node = .error err := by
  cases h : e.nodes.find? c.node with
  | none =>
    exact Or.inr ⟨_, .unknownNode (Call.needsNode_of_needsIdle hc) h, by rw [idleNode, h]⟩
  | some node =>
    cases hr : node.occupant with
    | none => exact Or.inl ⟨node, rfl, hr, by simp only [idleNode, h, hr]⟩
    | some r => exact Or.inr ⟨_, .occupied hc h hr, by simp only [idleNode, h, hr]⟩

theorem transition_create (e : LocalEngine) (name : NodeName) (d : NodeDefinition) :
    e.Transition (.create name d) (e.answer (.create name d)).1 (e.answer (.create name d)).2 := by
  by_cases hf : e.failing = true
  · have hc : e.create name d = .error toldToFail := by rw [create, if_pos hf]
    rw [answer, hc]
    exact .createRefused (.failing rfl hf)
  · cases h : e.nodes.find? name with
    | none =>
      have hc : e.create name d = .ok (⟨name, e.next⟩,
          { e.put name ⟨⟨name, e.next⟩, d, none⟩ with next := e.next + 1 }) := by
        rw [create, if_neg hf, Keyed.contains, h]
        rfl
      rw [answer, hc]
      exact .created (by simpa using hf) h
    | some node =>
      have hc : e.create name d = .error (.alreadyExists name) := by
        rw [create, if_neg hf, Keyed.contains, h]
        rfl
      rw [answer, hc]
      exact .createRefused (.alreadyExists (by simp [h]))

theorem transition_update (e : LocalEngine) (handle : NodeHandle) (d : NodeDefinition) :
    e.Transition (.update handle d) (e.answer (.update handle d)).1
      (e.answer (.update handle d)).2 := by
  by_cases hf : e.failing = true
  · have hc : e.update handle.name d = .error toldToFail := by rw [update, if_pos hf]
    rw [answer, hc]
    exact .updateRefused (.failing rfl hf)
  · rcases e.idleNode_cases (c := .update handle d) rfl with ⟨node, h, hr, hi⟩ | ⟨err, href, hi⟩
    · rw [answer, update, if_neg hf, show e.idleNode handle.name = _ from hi]
      exact .updated (by simpa using hf) h hr
    · rw [answer, update, if_neg hf, show e.idleNode handle.name = _ from hi]
      exact .updateRefused href

theorem transition_remove (e : LocalEngine) (handle : NodeHandle) :
    e.Transition (.remove handle) (e.answer (.remove handle)).1 (e.answer (.remove handle)).2 := by
  by_cases hf : e.failing = true
  · have hc : e.remove handle.name = .error toldToFail := by rw [remove, if_pos hf]
    rw [answer, hc]
    exact .removeRefused (.failing rfl hf)
  · rcases e.idleNode_cases (c := .remove handle) rfl with ⟨node, h, hr, hi⟩ | ⟨err, href, hi⟩
    · rw [answer, remove, if_neg hf, show e.idleNode handle.name = _ from hi]
      exact .removed (by simpa using hf) h hr
    · rw [answer, remove, if_neg hf, show e.idleNode handle.name = _ from hi]
      exact .removeRefused href

theorem transition_submit (e : LocalEngine) (b : Binding) :
    e.Transition (.submit b) (e.answer (.submit b)).1 (e.answer (.submit b)).2 := by
  rcases e.idleNode_cases (c := .submit b) rfl with ⟨node, h, hr, hi⟩ | ⟨err, href, hi⟩
  · rw [answer, submit, show e.idleNode b.node = _ from hi]
    exact .submitted h hr
  · rw [answer, submit, show e.idleNode b.node = _ from hi]
    exact .submitRefused href

theorem transition_complete (e : LocalEngine) (b : Binding) :
    e.Transition (.complete b) (e.answer (.complete b)).1 (e.answer (.complete b)).2 := by
  cases h : e.nodes.find? b.node with
  | none =>
    have hc : e.complete b = .error (.unknownNode b.node) := by rw [complete, h]
    rw [answer, hc]
    exact .completeRefused (.unknownNode rfl h)
  | some node =>
    by_cases hr : node.occupant = some b.reservation
    · have hc : e.complete b = .ok (b, e.put b.node { node with occupant := none }) := by
        simp only [complete, h, if_pos hr, put]
      rw [answer, hc]
      exact .completed h hr
    · have hc : e.complete b = .error (.notRunning b.node b.reservation) := by
        simp only [complete, h, if_neg hr]
      rw [answer, hc]
      exact .completeRefused (.notRunning h hr)

/-- Every call is answered by one of the transitions. -/
theorem transition (c : Call) (e : LocalEngine) : e.Transition c (e.answer c).1 (e.answer c).2 := by
  cases c with
  | isIdle name => exact .isIdle name
  | existing name => exact .existing name
  | create name d => exact e.transition_create name d
  | update handle d => exact e.transition_update handle d
  | remove handle => exact e.transition_remove handle
  | submit b => exact e.transition_submit b
  | complete b => exact e.transition_complete b

/-! ### Engines with faults -/

/-- The answers of an engine that may have faults: those of a sound one, and refusals that come of
a fault and change nothing. -/
def Reacts : Dialogue.Reaction Call Call.Answer LocalEngine := fun c e a e' =>
  e.Transition c a e' ∨ e' = e ∧ ∃ f : Fault, a = f.answer c

/-- A node in use stays as it is until its reservation ends. -/
theorem Reacts.find?_of_occupied {c : Call} {a : c.Answer} {r : ReservationId}
    (h : Reacts c e a e') (hn : e.nodes.find? n = some node) (hr : node.occupant = some r)
    (hc : ∀ b, c = .complete b → b.reservation ≠ r) : e'.nodes.find? n = some node := by
  rcases h with h | ⟨rfl, -⟩
  · have hne : ∀ {m : NodeName} {other : EngineNode}, e.nodes.find? m = some other →
        other.occupant ≠ node.occupant → n ≠ m := by
      rintro m other hm ho rfl
      rw [hn] at hm
      exact ho (congrArg EngineNode.occupant (Option.some.inj hm)).symm
    cases h with
    | created _ h =>
      have : n ≠ _ := fun heq => by rw [heq, h] at hn; cases hn
      simpa only [find?_put, if_neg this] using hn
    | updated _ h hidle =>
      rw [find?_put, if_neg (hne h (by rw [hidle, hr]; exact Option.some_ne_none r ∘ Eq.symm))]
      exact hn
    | removed _ h hidle =>
      rw [find?_drop, if_neg (hne h (by rw [hidle, hr]; exact Option.some_ne_none r ∘ Eq.symm))]
      exact hn
    | submitted h hidle =>
      rw [find?_put, if_neg (hne h (by rw [hidle, hr]; exact Option.some_ne_none r ∘ Eq.symm))]
      exact hn
    | completed h hown =>
      have hother := hc _ rfl
      rw [find?_put, if_neg (hne h (by rw [hown, hr]; simpa using hother))]
      exact hn
    | _ => exact hn
  · exact hn

/-- Only starting and ending reservations changes who uses a node. -/
theorem Reacts.occupant?_eq {c : Call} {a : c.Answer} (h : Reacts c e a e')
    (hc : c.isExecution = false) (n : NodeName) : e'.occupant? n = e.occupant? n := by
  rcases h with h | ⟨rfl, -⟩
  · cases h with
    | @created name d _ h =>
      change (e.put name ⟨⟨name, e.next⟩, d, none⟩).occupant? n = _
      rw [occupant?_put]
      split
      · next heq => rw [heq, occupant?_of_find?_none h]
      · rfl
    | updated _ h hidle =>
      rw [occupant?_put]
      split
      · next heq => rw [heq, occupant?_of_find? h]
      · rfl
    | removed _ h hidle =>
      rw [occupant?_drop]
      split
      · next heq => rw [heq, occupant?_of_find? h, hidle]
      · rfl
    | submitted => cases hc
    | completed => cases hc
    | _ => rfl
  · rfl

end LocalEngine

/-- An engine with faults reacts as an engine that may have faults. -/
theorem Machinery.reacts (c : Call) (m : Machinery) :
    LocalEngine.Reacts c m.engine (m.answer c).1 (m.answer c).2.engine := by
  cases h : m.fault? c.kind c.node with
  | none =>
    rw [answer_of_none h]
    exact Or.inl (m.engine.transition c)
  | some f =>
    have ha : m.answer c = (f.answer c, m) := by rw [answer, h]
    rw [ha]
    exact Or.inr ⟨rfl, f, rfl⟩

end NodeLending
