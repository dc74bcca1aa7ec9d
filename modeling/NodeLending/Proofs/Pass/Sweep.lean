import NodeLending.Pass.Run
import NodeLending.Proofs.Dialogue.Ensures
import NodeLending.Proofs.Pass.Plan

/-!
# Changes in turn

A pass carries out its changes one after the other, each under a name of its own. When its turn
comes, the pool has under the name of a change still what it had there in the beginning. So what is
to hold in the end follows from what a single change does, and no change has to be looked at
together with another one.

## Main results

* `Progress.ensures_carryOut`, `Pass.ensures_perform`: what every change keeps is kept by all of
  them.
-/

namespace NodeLending

open Engine (Call)

namespace Progress

variable {σ : Type} {T : Dialogue.Reaction Call Call.Answer σ} {J : Progress → σ → Prop}

/-- The outcome of a change is noted under its name, and nothing else. -/
@[simp] theorem find?_note (p : Progress) (name n : NodeName) (o : Change.Outcome) :
    (p.note name o).inventory.find? n = if n = name then o.node else p.inventory.find? n := by
  rw [note]
  split
  · next node heq => rw [Keyed.find?_insert, heq]
  · next heq => rw [Keyed.find?_erase, heq]

/-- What every change keeps is kept by a number of them, if no name has more than one. -/
theorem ensures_carryOut {plan : List (NodeName × Change)} (hnodup : (plan.map Prod.fst).Nodup)
    (hstep : ∀ x ∈ plan, ∀ p s, p.inventory.find? x.1 = x.2.before → J p s →
      (x.2.carryOut x.1).Ensures T (fun o s' => J (p.note x.1 o) s') s)
    {p : Progress} {s : σ} (hbefore : ∀ x ∈ plan, p.inventory.find? x.1 = x.2.before)
    (h : J p s) : (p.carryOut plan).Ensures T J s := by
  induction plan generalizing p s with
  | nil => exact h
  | cons x rest ih =>
    obtain ⟨name, change⟩ := x
    obtain ⟨hname, hrest⟩ := List.nodup_cons.mp hnodup
    rw [carryOut, Dialogue.ensures_bind]
    refine (hstep _ List.mem_cons_self p s (hbefore _ List.mem_cons_self) h).mono ?_
    intro o s' ho
    refine ih hrest (fun x hx => hstep x (List.mem_cons_of_mem _ hx)) (fun x hx => ?_) ho
    -- A change that is still to come has another name.
    have hne : x.1 ≠ name := fun heq => hname (List.mem_map.mpr ⟨x, hx, heq⟩)
    rw [find?_note, if_neg hne]
    exact hbefore x (List.mem_cons_of_mem _ hx)

end Progress

/-- A pass over a revision that is not rejected carries out the changes and is published. -/
theorem Pass.run_of_read {tree : FileTree} {snapshot : Snapshot}
    (hread : Snapshot.read tree = .ok snapshot) (pool : Pool) :
    run (.ok tree) pool = (do
      let p ← perform snapshot pool.view.inventory
      return (p.result, publish pool snapshot p)) := by
  have hsnapshot : read (.ok tree) = .ok snapshot := by
    rw [read, hread]
    rfl
  rw [run, hsnapshot]

/-- What every change keeps is kept by a pass. -/
theorem Pass.ensures_perform {σ : Type} {T : Dialogue.Reaction Call Call.Answer σ}
    {J : Progress → σ → Prop} {snapshot : Snapshot} {inventory : Inventory}
    (hstep : ∀ (name : NodeName) (change : Change), snapshot.nodes.find? name = change.declared? →
      ∀ p s, p.inventory.find? name = change.before → J p s →
        (change.carryOut name).Ensures T (fun o s' => J (p.note name o) s') s)
    {s : σ} (h : J (.start inventory) s) : (perform snapshot inventory).Ensures T J s := by
  refine Progress.ensures_carryOut (Change.nodup_plan _ _) (fun x hx => ?_) (fun x hx => ?_) h
  · exact hstep x.1 x.2 (Change.eq_of_mem_plan hx).2
  · exact (Change.eq_of_mem_plan hx).1

end NodeLending
