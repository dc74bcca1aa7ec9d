import NodeLending.Proofs.Engine.Roster
import NodeLending.Proofs.Pass.Race
import NodeLending.Proofs.Reservation.Lifecycle

/-!
# Ends of reservations

Whoever ends a reservation names it by its number alone. The queue knows the node that it runs on,
and the engine is asked to end it there. The engine could refuse, if it did not have the node or ran
something else on it. This never happens, since queue and engine agree on who uses which node, and a
node in use stays with the engine whatever becomes of it in the repository and in the pool. So only
the stage of the reservation decides how its end is answered.

## Main definitions

* `Machinery.Reliable`, `Act.Reliable`: calls that end reservations have no fault.
* `Deployment.released`: a deployment with a reservation that has run on a node.

## Main results

* `Deployment.complete_of_bound`, `Deployment.complete_of_none`, `Deployment.complete_of_not_bound`:
  the end of a reservation at each stage, and `Deployment.complete_cases` for all of them.
* `Deployment.completion`: the end of every reservation after every sequence of acts.
-/

namespace NodeLending

open Reservation (Stage)

/-- Calls that end reservations have no fault. -/
def Machinery.Reliable (m : Machinery) : Prop := ∀ n, m.fault? .complete n = none

/-- The act gives no fault to calls that end reservations. -/
def Act.Reliable : Act → Prop
  | setFault kind _ fault => kind = .complete → fault = none
  | _ => True

namespace Machinery

variable {m m' : Machinery}

theorem Reliable.of_fault?_eq (h : m.Reliable) (heq : m'.fault? = m.fault?) : m'.Reliable :=
  fun n => heq ▸ h n

theorem Reliable.setFault (h : m.Reliable) {kind : Engine.Call.Kind} {name : NodeName}
    {fault : Option Fault} (hf : kind = .complete → fault = none) :
    (m.setFault kind name fault).Reliable := by
  intro n
  change (if _ = kind ∧ n = name then fault else m.fault? .complete n) = none
  split
  · next heq => exact hf heq.1.symm
  · exact h n

/-- A reservation that runs on a node is ended there. -/
theorem Reliable.answer_complete (h : m.Reliable) {b : Binding} {node : EngineNode}
    (hn : m.engine.nodes.find? b.node = some node) (ho : node.occupant = some b.reservation) :
    m.answer (.complete b) =
      (.ok b, { m with engine := m.engine.put b.node { node with occupant := none } }) := by
  have hends : m.engine.complete b =
      .ok (b, m.engine.put b.node { node with occupant := none }) := by
    simp only [LocalEngine.complete, hn, if_pos ho, LocalEngine.put]
  rw [answer_of_none (h b.node), LocalEngine.answer, hends]
  rfl

end Machinery

namespace Deployment

variable {d : Deployment} {id : ReservationId} {r : Reservation} {n : NodeName}

theorem reliable_act (h : d.machinery.Reliable) {a : Act} (ha : a.Reliable) :
    (d.act a).machinery.Reliable := by
  cases a with
  | setFault kind name fault => exact h.setFault ha
  | apply | maintain | maintainOver | complete => exact h.of_fault?_eq (Machinery.fault?_run _ _)
  | call c => exact h.of_fault?_eq (Machinery.fault?_answer c _)
  | giveUp | arrange | reset | setFailing | enqueue | prune => exact h

/-! ### One end -/

/-- There is no such reservation. -/
theorem complete_of_none (h : d.queue.entries.find? id = none) :
    d.complete id = (.error (.unknownReservation id), d) := by
  rw [complete, Queue.complete, h]
  rfl

/-- The reservation does not run. -/
theorem complete_of_not_bound (h : d.queue.entries.find? id = some r)
    (hr : ∀ n, r.stage ≠ .bound n) : d.complete id = (.error (.notBound id), d) := by
  rw [complete, Queue.complete, h]
  cases hs : r.stage with
  | bound n => exact absurd hs (hr n)
  | _ => simp only [hs]; rfl

/-- The deployment with a reservation that has run on a node. The node is idle, and nothing else is
different. -/
def released (d : Deployment) (id : ReservationId) (n : NodeName) (node : EngineNode) :
    Deployment :=
  (d.withQueue (d.queue.setStage id (.completed n))).withMachinery
    { d.machinery with engine := d.machinery.engine.put n { node with occupant := none } }

/-- The reservation runs on a node, and the engine says so too. -/
theorem complete_of_bound (hd : d.machinery.Reliable) {node : EngineNode}
    (h : d.queue.entries.find? id = some r) (hr : r.stage = .bound n)
    (hn : d.machinery.engine.nodes.find? n = some node) (ho : node.occupant = some id) :
    d.complete id = (.ok ⟨id, n, r.owner.name⟩, d.released id n node) := by
  have hanswer := hd.answer_complete (b := ⟨id, n, r.owner.name⟩) hn ho
  have hrun : (d.queue.complete id).run Machinery.answer d.machinery =
      ((.ok ⟨id, n, r.owner.name⟩, d.queue.setStage id (.completed n)), { d.machinery with
        engine := d.machinery.engine.put n { node with occupant := none } }) := by
    simp only [Queue.complete, h, hr, Engine.complete, Dialogue.run_bind, Dialogue.run_ask,
      Dialogue.run_done, hanswer, Dialogue.run_pure]
  rw [complete, carryOut, hrun]
  rfl

/-- If queue and engine agree on who uses which node, the engine is not asked in vain. -/
theorem complete_cases (hd : d.machinery.Reliable) (hagrees : d.queue.Agrees d.machinery.engine)
    (id : ReservationId) :
    (d.queue.stage? id = none ∧ d.complete id = (.error (.unknownReservation id), d)) ∨
    (∃ stage, d.queue.stage? id = some stage ∧ (∀ n, stage ≠ .bound n) ∧
      d.complete id = (.error (.notBound id), d)) ∨
    ∃ n r node, d.queue.stage? id = some (.bound n) ∧ d.queue.entries.find? id = some r ∧
      d.machinery.engine.nodes.find? n = some node ∧ node.occupant = some id ∧
      d.complete id = (.ok ⟨id, n, r.owner.name⟩, d.released id n node) := by
  cases hfind : d.queue.entries.find? id with
  | none => exact Or.inl ⟨by rw [Queue.stage?, hfind, Option.map_none], complete_of_none hfind⟩
  | some r =>
    have hstage : d.queue.stage? id = some r.stage := by rw [Queue.stage?, hfind, Option.map_some]
    refine Or.inr ?_
    by_cases hbound : ∃ n, r.stage = .bound n
    · obtain ⟨n, hn⟩ := hbound
      rw [hn] at hstage
      obtain ⟨node, hnode, ho⟩ := LocalEngine.occupant?_eq_some_iff.mp ((hagrees id n).mp hstage)
      exact Or.inr ⟨n, r, node, hstage, rfl, hnode, ho, complete_of_bound hd hfind hn hnode ho⟩
    · have hne := not_exists.mp hbound
      exact Or.inl ⟨_, hstage, hne, complete_of_not_bound hfind hne⟩

/-! ### Every end -/

/-- **Ends of reservations.** After every sequence of brokered acts in which fewer than 2 ^ 64
reservations are made, with passes, resets and an engine that may be told to fail among them:

* A reservation is ended exactly when it is bound to a node. The answer names it, the node and the
  party that it has been made for, the node becomes idle, and nothing else changes.
* An unknown reservation and one that is not bound are refused as such, and nothing changes.
* The engine never refuses. -/
theorem completion (repository : Option String) (files : FileTree) (l : List Act)
    (hl : ∀ a ∈ l, a.Brokered ∧ a.Reliable) (hk : l.countP Act.isEnqueue < 2 ^ 64)
    (id : ReservationId) :
    let d := (new repository files).acts l
    ((∃ b, (d.complete id).1 = .ok b) ↔ ∃ n, d.queue.stage? id = some (.bound n)) ∧
    (∀ n, d.queue.stage? id = some (.bound n) → ∃ owner label node,
      (id, ⟨owner, label, .pending⟩) ∈ (new repository files).orders l ∧
      d.machinery.engine.nodes.find? n = some node ∧ node.occupant = some id ∧
      d.complete id = (.ok ⟨id, n, owner.name⟩, d.released id n node)) ∧
    (d.queue.stage? id = none → d.complete id = (.error (.unknownReservation id), d)) ∧
    (∀ stage, d.queue.stage? id = some stage → (∀ n, stage ≠ .bound n) →
      d.complete id = (.error (.notBound id), d)) ∧
    ∀ err, (d.complete id).1 ≠ .error (.engine err) := by
  intro d
  have hreliable : d.machinery.Reliable :=
    acts_induction (I := fun d => d.machinery.Reliable) (fun _ _ ha h => reliable_act h ha.2) hl
      fun _ => rfl
  have hrecorded : d.queue.Recorded ((new repository files).orders l) :=
    Queue.Recorded.acts (d := new repository files) .empty (by rwa [List.length_nil, Nat.zero_add])
  have hagrees : d.queue.Agrees d.machinery.engine :=
    ((Booked.new repository files).acts (fun a ha => (hl a ha).1) (by rwa [Nat.zero_add])).agrees
  rcases complete_cases hreliable hagrees id with ⟨hstage, hends⟩ | ⟨stage, hstage, hne, hends⟩ |
      ⟨n, r, node, hstage, hr, hnode, ho, hends⟩
  · simp [hstage, hends]
  · simp [hstage, hends, hne]
  · refine ⟨iff_of_true ⟨_, congrArg Prod.fst hends⟩ ⟨n, hstage⟩, fun m hm => ?_, ?_, ?_, ?_⟩
    · rw [hstage] at hm
      cases hm
      exact ⟨r.owner, r.label, node, hrecorded.mem id r hr, hnode, ho, hends⟩
    · simp [hstage]
    · simp [hstage]
    · simp [hends]

/-- A reservation runs on a node that the repository does not declare, which a reset has taken out
of the pool and an engine that fails cannot give up. -/
def forsaken : List Act :=
  lending ++ [.apply (.ok Sample.bareRevision), .reset, .setFailing true,
    .apply (.ok Sample.bareRevision), .prune]

theorem complete_of_reset_and_failing :
    let d := (new none .empty).acts forsaken
    d.inventory.find? Sample.node = none ∧ ∃ b, (d.complete ⟨1⟩).1 = .ok b := by
  have hl : ∀ a ∈ forsaken, a.Brokered ∧ a.Reliable := by
    simp [forsaken, lending, Act.Brokered, Act.Reliable, Engine.Call.isExecution]
  exact ⟨by decide, (completion none .empty forsaken hl (by decide) ⟨1⟩).1.mpr
    ⟨Sample.node, by decide⟩⟩

end Deployment

end NodeLending
