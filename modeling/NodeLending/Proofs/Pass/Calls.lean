import NodeLending.Pass.Run
import NodeLending.Proofs.Engine.Transition
import NodeLending.Proofs.Pass.Plan

/-!
# The calls of a pass

A pass looks at nodes, creates, redefines and removes them. It neither starts nor ends a
reservation, whatever revision it follows and however the engine answers. A node is created only if
it is declared, and removed only if it is not.

## Main results

* `Change.asks_carryOut`, `Pass.asks_run`: no call of a change, or of a pass, starts or ends a
  reservation.
* `Change.asks_carryOut_of_declared`, `Change.asks_carryOut_of_before`: which changes remove and
  create nodes.
-/

namespace NodeLending

open Engine (Call)

namespace Change

variable {P : Call → Prop}

section Kinds

variable (hidle : ∀ name, P (.isIdle name)) (hupdate : ∀ handle d, P (.update handle d))

include hidle hupdate

theorem asks_applyDefinition (node : ManagedNode) (d : NodeDefinition) :
    (applyDefinition node d).Asks P := by
  refine Dialogue.Asks.question (hidle _) fun idle => ?_
  cases idle with
  | false => trivial
  | true =>
    refine Dialogue.Asks.question (hupdate _ _) fun a => ?_
    split <;> trivial

variable (hexisting : ∀ name, P (.existing name))

include hexisting

theorem asks_adopt (name : NodeName) (d : NodeDefinition) : (adopt name d).Asks P := by
  refine Dialogue.Asks.question (hexisting name) fun a => ?_
  split
  · trivial
  · split
    · trivial
    · exact (asks_applyDefinition hidle hupdate _ d).bind fun o => trivial

theorem asks_bring (hcreate : ∀ name d, P (.create name d)) (name : NodeName)
    (d : NodeDefinition) : (bring name d).Asks P := by
  refine Dialogue.Asks.question (hcreate name d) fun a => ?_
  split
  · trivial
  · exact asks_adopt hidle hupdate hexisting name d
  · trivial

end Kinds

theorem asks_remove (hidle : ∀ name, P (.isIdle name)) (hremove : ∀ handle, P (.remove handle))
    (name : NodeName) (node : ManagedNode) : (remove name node).Asks P := by
  refine Dialogue.Asks.question (hidle name) fun idle => ?_
  split
  · trivial
  · refine Dialogue.Asks.question (hremove _) fun a => ?_
    split <;> trivial

/-- No call of a change starts or ends a reservation. -/
theorem asks_carryOut (name : NodeName) (change : Change) :
    (change.carryOut name).Asks (·.isExecution = false) := by
  cases change with
  | keep node => trivial
  | create d => exact asks_bring (fun _ => rfl) (fun _ _ => rfl) (fun _ => rfl) (fun _ _ => rfl) name d
  | redefine node d =>
    exact (asks_applyDefinition (fun _ => rfl) (fun _ _ => rfl) _ d).bind fun o => trivial
  | retire node => exact asks_remove (fun _ => rfl) (fun _ => rfl) name node

/-- Only the change of a node that is not declared removes nodes. -/
theorem asks_carryOut_of_declared {change : Change} (h : change.declared? ≠ none)
    (name : NodeName) : (change.carryOut name).Asks (·.isRemove = false) := by
  cases change with
  | keep node => trivial
  | create d => exact asks_bring (fun _ => rfl) (fun _ _ => rfl) (fun _ => rfl) (fun _ _ => rfl) name d
  | redefine node d => exact (asks_applyDefinition (fun _ => rfl) (fun _ _ => rfl) _ d).bind fun o => trivial
  | retire node => exact absurd rfl h

/-- Only the change of a node that the pool does not have creates nodes. -/
theorem asks_carryOut_of_before {change : Change} (h : change.before ≠ none) (name : NodeName) :
    (change.carryOut name).Asks (·.isCreate = false) := by
  cases change with
  | keep node => trivial
  | create d => exact absurd rfl h
  | redefine node d => exact (asks_applyDefinition (fun _ => rfl) (fun _ _ => rfl) _ d).bind fun o => trivial
  | retire node => exact asks_remove (fun _ => rfl) (fun _ => rfl) name node

end Change

theorem Progress.asks_carryOut {P : Call → Prop} {plan : List (NodeName × Change)}
    (h : ∀ x ∈ plan, (x.2.carryOut x.1).Asks P) (p : Progress) : (p.carryOut plan).Asks P := by
  induction plan generalizing p with
  | nil => trivial
  | cons x rest ih =>
    obtain ⟨name, change⟩ := x
    exact (h _ List.mem_cons_self).bind fun o =>
      ih (fun y hy => h y (List.mem_cons_of_mem _ hy)) (p.note name o)

/-- No call of a pass starts or ends a reservation. -/
theorem Pass.asks_run (fetched : Except FetchError FileTree) (pool : Pool) :
    (Pass.run fetched pool).Asks (·.isExecution = false) := by
  rw [Pass.run]
  split
  · trivial
  · exact (Progress.asks_carryOut (fun x _ => x.2.asks_carryOut x.1) _).bind fun p => trivial

end NodeLending
