import NodeLending.Engine.Local

/-!
# Faults of an engine

What lies under an engine may break for one node while the others go on. A fault says how a kind of
call for a node is answered as long as it lasts; such a call does not reach the engine.

## Main definitions

* `Fault`, and `Fault.answer`, the answers that a fault gives.
* `Machinery`: an engine with its faults, and `Machinery.answer`.

## Main results

* `Machinery.answer_of_none`: without a fault the engine itself answers.
-/

namespace NodeLending

open Engine (Call)

/-- How a call is answered that does not reach the engine. -/
structure Fault where
  /-- The refusal of a call that can be refused. -/
  error : EngineError
  /-- Whether a node is reported as idle. -/
  idle : Bool
  deriving DecidableEq, Repr

/-- The answer that a fault gives to a call. A node that is looked up is not found. -/
def Fault.answer (f : Fault) : (c : Call) → c.Answer
  | .isIdle _ => f.idle
  | .create _ _ => .error f.error
  | .update _ _ => .error f.error
  | .remove _ => .error f.error
  | .existing _ => none
  | .submit _ => .error f.error
  | .complete _ => .error f.error

/-- An engine together with its faults. -/
structure Machinery where
  /-- The engine. -/
  engine : LocalEngine
  /-- The faults. -/
  fault? : Call.Kind → NodeName → Option Fault

namespace Machinery

/-- The engine without nodes and without faults. -/
def empty : Machinery := ⟨.empty, fun _ _ => none⟩

/-- From now on a kind of call for a node has this fault, or none. -/
def setFault (m : Machinery) (kind : Call.Kind) (node : NodeName) (fault : Option Fault) :
    Machinery :=
  { m with fault? := fun k n => if k = kind ∧ n = node then fault else m.fault? k n }

/-- From now on the engine fails, or not. -/
def setFailing (m : Machinery) (failing : Bool) : Machinery :=
  { m with engine := { m.engine with failing } }

/-- The answer to a call, and the machinery after it. -/
def answer (c : Call) (m : Machinery) : c.Answer × Machinery :=
  match m.fault? c.kind c.node with
  | some f => (f.answer c, m)
  | none => ((m.engine.answer c).1, { m with engine := (m.engine.answer c).2 })

/-- Without a fault the engine itself answers. -/
theorem answer_of_none {c : Call} {m : Machinery} (h : m.fault? c.kind c.node = none) :
    m.answer c = ((m.engine.answer c).1, { m with engine := (m.engine.answer c).2 }) := by
  rw [answer, h]

end Machinery

end NodeLending
