import Mathlib.Logic.Function.Basic
import NodeLending.Proofs.Engine.Transition

/-!
# What an engine knows of its nodes

Who uses a node comes and goes, while the node itself stays. Leaving the users out, an engine comes
to its roster: under each name it has a handle and a definition, or nothing. Starting and ending
reservations does nothing to a roster, and neither does a look at a node, so all that others may do
to the engine of a pass can be left out of what is said of its roster.

A fault may refuse any call, and keep a node from being found. The one thing that must not happen is
that a node which is there is reported as unknown when it is to be removed.

## Main definitions

* `Roster`, `LocalEngine.roster`: the nodes without their users.
* `Roster.Reacts`: what calls may do to a roster.
* `Machinery.Honest`: no fault reports a node as unknown.
* `Machinery.Sound`: there are no faults, and the engine has not been told to fail.

## Main results

* `Machinery.roster_reacts`: the roster of an engine whose faults are honest reacts in this way.
* `LocalEngine.roster_put_of_find?`: the users of a node have nothing to do with the roster.
-/

namespace NodeLending

open Engine (Call)

/-- What is known of the nodes of an engine, by their names. -/
abbrev Roster : Type := NodeName → Option (NodeHandle × NodeDefinition)

namespace Roster

variable {ρ ρ' : Roster}

/-- The answers to calls, each with the roster after it. -/
inductive Turn (ρ : Roster) : (c : Call) → c.Answer → Roster → Prop
  | isIdle (name : NodeName) (idle : Bool) : Turn ρ (.isIdle name) idle ρ
  | existing {name : NodeName} {found : Option (NodeHandle × NodeDefinition)}
      (h : ∀ x ∈ found, ρ name = some x) : Turn ρ (.existing name) found ρ
  | created {name : NodeName} {d : NodeDefinition} {handle : NodeHandle}
      (hname : handle.name = name) (h : ρ name = none) :
      Turn ρ (.create name d) (.ok handle) (Function.update ρ name (some (handle, d)))
  | updated {handle kept : NodeHandle} {d old : NodeDefinition}
      (h : ρ handle.name = some (kept, old)) :
      Turn ρ (.update handle d) (.ok kept) (Function.update ρ handle.name (some (kept, d)))
  | removed (handle : NodeHandle) :
      Turn ρ (.remove handle) (.ok ()) (Function.update ρ handle.name none)
  | createRefused (name : NodeName) (d : NodeDefinition) (err : EngineError) :
      Turn ρ (.create name d) (.error err) ρ
  | updateRefused (handle : NodeHandle) (d : NodeDefinition) (err : EngineError) :
      Turn ρ (.update handle d) (.error err) ρ
  | removeRefused {handle : NodeHandle} {err : EngineError}
      (h : ∀ n, err = .unknownNode n → ρ handle.name = none) :
      Turn ρ (.remove handle) (.error err) ρ
  | submit (b : Binding) (a : Except EngineError Unit) : Turn ρ (.submit b) a ρ
  | complete (b : Binding) (a : Except EngineError Binding) : Turn ρ (.complete b) a ρ

/-- What calls may do to a roster. -/
def Reacts : Dialogue.Reaction Call Call.Answer Roster := fun c ρ a ρ' => ρ.Turn c a ρ'

/-- Only calls that create, redefine or remove nodes do anything to a roster. -/
theorem Turn.eq_of_isLifecycle {c : Call} {a : c.Answer} (h : ρ.Turn c a ρ')
    (hc : c.isLifecycle = false) : ρ' = ρ := by
  cases h with
  | created | updated | removed => cases hc
  | _ => rfl

theorem Turn.eq_of_create {name : NodeName} {d : NodeDefinition} {err : EngineError}
    (h : ρ.Turn (.create name d) (.error err) ρ') : ρ' = ρ := by
  cases h
  rfl

end Roster

/-! ### The roster of an engine -/

namespace LocalEngine

variable {e e' : LocalEngine} {name : NodeName} {node : EngineNode}

/-- The nodes of an engine without their users. -/
def roster (e : LocalEngine) : Roster := e.existing

theorem roster_of_find? (h : e.nodes.find? name = some node) :
    e.roster name = some (node.handle, node.definition) := by
  rw [roster, existing, h, Option.map_some]

theorem roster_eq_none_iff : e.roster name = none ↔ e.nodes.find? name = none := by
  rw [roster, existing, Option.map_eq_none_iff]

theorem roster_eq_some_iff {x : NodeHandle × NodeDefinition} :
    e.roster name = some x ↔
      ∃ node, e.nodes.find? name = some node ∧ node.handle = x.1 ∧ node.definition = x.2 := by
  rw [roster, existing, Option.map_eq_some_iff]
  exact exists_congr fun node => and_congr_right fun _ => Prod.ext_iff

@[simp] theorem roster_put :
    (e.put name node).roster =
      Function.update e.roster name (some (node.handle, node.definition)) := by
  funext n
  rw [Function.update_apply, roster, existing, find?_put]
  split <;> rfl

@[simp] theorem roster_drop : (e.drop name).roster = Function.update e.roster name none := by
  funext n
  rw [Function.update_apply, roster, existing, find?_drop]
  split <;> rfl

/-- Whoever uses a node, the roster is the same. -/
theorem roster_put_of_find? (h : e.nodes.find? name = some node)
    (occupant : Option ReservationId) : (e.put name { node with occupant }).roster = e.roster := by
  rw [roster_put, ← roster_of_find? h, Function.update_eq_self]

/-- A call to an engine is a call to its roster. -/
theorem Transition.turn {c : Call} {a : c.Answer} (h : e.Transition c a e') :
    e.roster.Turn c a e'.roster := by
  cases h with
  | isIdle name => exact .isIdle name _
  | existing name => exact .existing fun x hx => hx
  | @created name d _ h =>
    change e.roster.Turn _ _ (e.put name ⟨⟨name, e.next⟩, d, none⟩).roster
    rw [roster_put]
    exact .created rfl (roster_eq_none_iff.mpr h)
  | updated _ h _ =>
    rw [roster_put]
    exact .updated (roster_of_find? h)
  | removed _ h _ =>
    rw [roster_drop]
    exact .removed _
  | submitted h _ =>
    rw [roster_put_of_find? h]
    exact .submit _ _
  | completed h _ =>
    rw [roster_put_of_find? h]
    exact .complete _ _
  | createRefused => exact .createRefused _ _ _
  | updateRefused => exact .updateRefused _ _ _
  | removeRefused h =>
    refine .removeRefused fun n hn => ?_
    cases h with
    | unknownNode _ h => exact roster_eq_none_iff.mpr h
    | failing | occupied => cases hn
  | submitRefused => exact .submit _ _
  | completeRefused => exact .complete _ _

/-- An engine that has not been told to fail refuses a node that is there only if it is in use. -/
theorem Refusal.exists_occupied {c : Call} {err : EngineError}
    (h : e.Refusal c err) (hc : c.needsIdle = true) (hf : e.failing = false)
    (hn : e.roster c.node ≠ none) : ∃ r, err = .occupied c.node r ∧ e.isIdle c.node = false := by
  cases h with
  | failing _ h =>
    rw [hf] at h
    cases h
  | alreadyExists | notRunning => cases hc
  | unknownNode _ h => exact absurd (roster_eq_none_iff.mpr h) hn
  | occupied _ h hr =>
    refine ⟨_, rfl, ?_⟩
    rw [isIdle, occupant?_of_find? h, hr]
    rfl

end LocalEngine

/-! ### Engines with faults -/

/-- The fault does not report a node as unknown. -/
def Fault.Honest (f : Fault) : Prop := ∀ name, f.error ≠ .unknownNode name

/-- An honest fault does nothing to a roster. -/
theorem Fault.Honest.turn {f : Fault} (hf : f.Honest) (ρ : Roster) (c : Call) :
    ρ.Turn c (f.answer c) ρ := by
  cases c with
  | isIdle name => exact .isIdle name _
  | create name d => exact .createRefused _ _ _
  | update handle d => exact .updateRefused _ _ _
  | remove handle => exact .removeRefused fun n hn => absurd hn (hf n)
  | existing name => exact .existing nofun
  | submit b => exact .submit _ _
  | complete b => exact .complete _ _

namespace Machinery

/-- No fault reports a node as unknown. -/
def Honest (m : Machinery) : Prop := ∀ kind name, ∀ f ∈ m.fault? kind name, f.Honest

/-- No call has a fault, and the engine has not been told to fail. -/
structure Sound (m : Machinery) : Prop where
  /-- No call has a fault. -/
  fault? : ∀ kind name, m.fault? kind name = none
  /-- The engine has not been told to fail. -/
  failing : m.engine.failing = false

variable {m : Machinery}

@[simp] theorem fault?_answer (c : Call) (m : Machinery) : (m.answer c).2.fault? = m.fault? := by
  rw [answer]
  split <;> rfl

/-- An activity leaves the faults as they are. -/
@[simp] theorem fault?_run {α : Type} (x : Engine.Exchange α) (m : Machinery) :
    (x.run answer m).2.fault? = m.fault? := by
  induction x generalizing m with
  | done a => rfl
  | ask c next ih => rw [Dialogue.run_ask, ih, fault?_answer]

theorem Honest.of_fault?_eq {m' : Machinery} (h : m.Honest) (heq : m'.fault? = m.fault?) :
    m'.Honest := by
  rw [Honest, heq]
  exact h

/-- A call to an engine whose faults are honest is a call to its roster. -/
theorem Honest.turn (h : m.Honest) (c : Call) :
    m.engine.roster.Turn c (m.answer c).1 (m.answer c).2.engine.roster := by
  cases hf : m.fault? c.kind c.node with
  | none =>
    rw [answer_of_none hf]
    exact (m.engine.transition c).turn
  | some f =>
    have ha : m.answer c = (f.answer c, m) := by rw [answer, hf]
    rw [ha]
    exact (h _ _ f hf).turn m.engine.roster c

/-- The roster of an engine whose faults are honest reacts as rosters do. -/
theorem roster_reacts (c : Call) (m : Machinery) (h : m.Honest) :
    (m.answer c).2.Honest ∧
      Roster.Reacts c m.engine.roster (m.answer c).1 (m.answer c).2.engine.roster :=
  ⟨h.of_fault?_eq (fault?_answer c m), h.turn c⟩

theorem Sound.honest (h : m.Sound) : m.Honest := by
  intro kind name f hf
  rw [h.fault? kind name] at hf
  cases hf

/-- A sound engine answers for itself. -/
theorem Sound.transition (h : m.Sound) (c : Call) :
    m.engine.Transition c (m.answer c).1 (m.answer c).2.engine := by
  rw [answer_of_none (h.fault? _ _)]
  exact m.engine.transition c

theorem failing_answer (c : Call) (m : Machinery) :
    (m.answer c).2.engine.failing = m.engine.failing := by
  rcases m.reacts c with h | ⟨h, -⟩
  · generalize (m.answer c).1 = a, (m.answer c).2.engine = e' at h
    cases h <;> rfl
  · rw [h]

theorem Sound.answer (h : m.Sound) (c : Call) : (m.answer c).2.Sound where
  fault? := by
    rw [fault?_answer]
    exact h.fault?
  failing := (failing_answer c m).trans h.failing

end Machinery

end NodeLending
