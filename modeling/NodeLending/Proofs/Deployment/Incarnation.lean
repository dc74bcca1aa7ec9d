import NodeLending.Proofs.Deployment.Act
import NodeLending.Proofs.Engine.Movement

/-!
# The identity of nodes

Over a whole run of a deployment the engine tells its nodes apart by their incarnations. A node keeps
its incarnation as long as it is not removed, whatever passes, resets and reservations do meanwhile,
and a node that comes back under an old name has a later incarnation than any node had before it was
created. Numbers are used up by nodes that are created, and by nothing else.

A single act never takes a node away and brings another one under the same name: a pass creates
nodes before it removes any.

## Main definitions

* `Deployment.movements`, `Deployment.history`: the nodes that come and go in an act, and in acts.

## Main results

* `Deployment.keeps_act`: a node that is there before and after an act keeps its handle.
* `Deployment.incarnation_lt`: a node that comes is later than all that have been there.
* `Deployment.incarnation_acts`: the identity of nodes over whole runs.
* `Deployment.acts_turnovers`, `Deployment.counter_wraps`: how far the counter of the engine goes.
-/

namespace NodeLending

open Engine (Call)

/-! ### Reservations -/

section Reservations

variable {inventory : Inventory} {q q' : Queue} {e e' : LocalEngine}

/-- A cycle does nothing to the handles. -/
theorem Queue.Seating.register_eq {bs : List Binding} (h : Seating inventory q e bs q' e') :
    e'.register = e.register := by
  induction h with
  | nil => rfl
  | cons _ _ _ hn _ _ ih => exact ih.trans (LocalEngine.register_put_of_find? hn _ _)

/-- The end of a reservation does nothing to the handles. -/
theorem Queue.Release.register_eq {id : ReservationId} {b : Binding}
    (h : Release q e id b q' e') : e'.register = e.register := by
  obtain ⟨-, -, hn, -⟩ := h
  exact LocalEngine.register_put_of_find? hn _ _

end Reservations

/-! ### Passes -/

/-- The changes at the end of a list are carried out after the others. -/
theorem Progress.run_carryOut_append {σ : Type} (answer : (c : Call) → σ → c.Answer × σ)
    (p : Progress) (l l' : List (NodeName × Change)) (s : σ) :
    (p.carryOut (l ++ l')).run answer s =
      (((p.carryOut l).run answer s).1.carryOut l').run answer ((p.carryOut l).run answer s).2 := by
  induction l generalizing p s with
  | nil => rfl
  | cons x l ih => simp only [List.cons_append, carryOut, Dialogue.run_bind, ih]

/-- A pass creates nodes before it removes any. -/
theorem Pass.keeps_run (fetched : Except FetchError FileTree) (pool : Pool) (m : Machinery) :
    m.engine.register.Keeps ((Pass.run fetched pool).run Machinery.answer m).2.engine.register := by
  rw [Pass.run]
  split
  · exact .of_eq rfl
  · next snapshot _ =>
    have hdeclared : ∀ x ∈ Change.kept snapshot.nodes pool.view.inventory ++
        Change.created snapshot.nodes pool.view.inventory ++
        Change.redefined snapshot.nodes pool.view.inventory,
        (x.2.carryOut x.1).Asks (·.isRemove = false) := by
      rintro ⟨name, change⟩ hx
      refine change.asks_carryOut_of_declared ?_ name
      rw [List.mem_append, List.mem_append, Change.mem_kept, Change.mem_created,
        Change.mem_redefined] at hx
      rcases hx with (⟨node, -, -, rfl⟩ | ⟨d, -, -, rfl⟩) | ⟨node, d, -, -, -, rfl⟩
      · exact Option.some_ne_none node.definition
      · exact Option.some_ne_none d
      · exact Option.some_ne_none d
    have hretired : ∀ x ∈ Change.retired snapshot.nodes pool.view.inventory,
        (x.2.carryOut x.1).Asks (·.isCreate = false) := by
      rintro ⟨name, change⟩ hx
      obtain ⟨node, -, -, rfl⟩ := Change.mem_retired.mp hx
      have hbefore : (Change.retire node).before ≠ none := Option.some_ne_none node
      exact Change.asks_carryOut_of_before hbefore name
    rw [Dialogue.run_bind, Dialogue.run_pure, perform, Change.plan_eq,
      Progress.run_carryOut_append]
    exact .of_moves (Machinery.moves_run _ _)
      (Machinery.isArrival_of_mem_movements (Progress.asks_carryOut hdeclared _))
      (Machinery.moves_run _ _)
      (Machinery.not_isArrival_of_mem_movements (Progress.asks_carryOut hretired _))

namespace Deployment

/-! ### Acts -/

/-- The nodes that come and go in an act, in order. -/
def movements (d : Deployment) : Act → List Movement
  | .apply fetched => d.machinery.movements (Pass.run fetched d.pool)
  | .call c => (c.movement? (d.machinery.answer c).1).toList
  | .maintain => d.machinery.movements (d.queue.maintain d.pool.view.inventory)
  | .maintainOver view => d.machinery.movements (d.queue.maintain view.inventory)
  | .complete id => d.machinery.movements (d.queue.complete id)
  | _ => []

/-- The nodes that come and go in a sequence of acts, in order. -/
def history (d : Deployment) : List Act → List Movement
  | [] => []
  | a :: l => d.movements a ++ (d.act a).history l

theorem history_append (d : Deployment) (l l' : List Act) :
    d.history (l ++ l') = d.history l ++ (d.acts l).history l' := by
  induction l generalizing d with
  | nil => rfl
  | cons a l ih => rw [List.cons_append, history, history, ih, List.append_assoc]; rfl

/-- The handles of the engine with its counter. -/
def register (d : Deployment) : Register := d.machinery.engine.register

/-- An act does to the register what its movements do. -/
theorem moves_act (d : Deployment) (a : Act) :
    d.register.Moves (d.movements a) (d.act a).register := by
  cases a with
  | apply | maintain | maintainOver | complete => exact Machinery.moves_run _ _
  | call c => exact (d.machinery.reacts c).moves
  | giveUp | arrange | reset | setFailing | setFault | enqueue | prune => exact .nil _

/-- Acts do to the register what their movements do. -/
theorem moves_acts (d : Deployment) (l : List Act) :
    d.register.Moves (d.history l) (d.acts l).register := by
  induction l generalizing d with
  | nil => exact .nil _
  | cons a l ih => exact (d.moves_act a).append (ih (d.act a))

/-- A node that is there before and after an act keeps its handle. -/
theorem keeps_act (d : Deployment) (a : Act) : d.register.Keeps (d.act a).register := by
  cases a with
  | apply fetched => exact Pass.keeps_run fetched d.pool d.machinery
  | call c =>
    have hmoves := (d.machinery.reacts c).moves
    by_cases hc : c.isRemove = true
    · have hcreate : c.isCreate = false := by
        cases c with
        | create => cases hc
        | _ => rfl
      refine .of_moves (.nil _) (by simp) hmoves fun m hm => ?_
      exact Call.not_isArrival_of_movement? hcreate (Option.mem_toList.mp hm)
    · refine .of_moves hmoves (fun m hm => ?_) (.nil _) (by simp)
      exact Call.isArrival_of_movement? (by simpa using hc) (Option.mem_toList.mp hm)
  | maintain => exact .of_eq (d.seating_maintained d.pool.view).register_eq
  | maintainOver view => exact .of_eq (d.seating_maintained view).register_eq
  | complete id =>
    rcases d.release_completed id with ⟨b, -, hrel⟩ | ⟨-, -, he⟩
    · exact .of_eq hrel.register_eq
    · exact .of_eq (congrArg LocalEngine.register he)
  | giveUp | arrange | reset | setFailing | setFault | enqueue | prune => exact .of_eq rfl

theorem numbered_new (repository : Option String) (files : FileTree) :
    (new repository files).register.Numbered 0 where
  next := rfl
  named _ _ hn := nomatch hn
  given _ _ hn := nomatch hn
  once _ _ _ _ hn := nomatch hn

/-- The numbers that have been given out in a run. -/
theorem numbered_acts (repository : Option String) (files : FileTree) {l : List Act}
    (hk : Movement.arrivals ((new repository files).history l) < 2 ^ 64) :
    ((new repository files).acts l).register.Numbered
      (Movement.arrivals ((new repository files).history l)) := by
  have hmoves := (numbered_new repository files).moves (moves_acts _ l) (by omega)
  rwa [Nat.zero_add] at hmoves

/-- A node that comes in the last act of a run has a later incarnation than any node has had. -/
theorem incarnation_lt (repository : Option String) (files : FileTree) {run : List Act} {a : Act}
    (hk : Movement.arrivals ((new repository files).history (run ++ [a])) < 2 ^ 64)
    {n : NodeName} {x' : EngineNode}
    (hnone : ((new repository files).acts run).machinery.engine.nodes.find? n = none)
    (hx' : (((new repository files).acts run).act a).machinery.engine.nodes.find? n = some x')
    {l : List Act} (hl : l <+: run) {n' : NodeName} {x : EngineNode}
    (hx : ((new repository files).acts l).machinery.engine.nodes.find? n' = some x) :
    x.handle.incarnation < x'.handle.incarnation := by
  obtain ⟨l', rfl⟩ := hl
  rw [history_append, Movement.arrivals_append] at hk
  have hrun := numbered_acts repository files (l := l ++ l') (by omega)
  have hlast := moves_acts ((new repository files).acts (l ++ l')) [a]
  have hlater : Movement.arrivals ((new repository files).history (l ++ l')) <
      x'.handle.incarnation.toNat := by
    rcases hlast.origin hrun hk (LocalEngine.handle?_register hx') with ⟨hold, -⟩ | ⟨hlt, -⟩
    · rw [register, LocalEngine.handle?_register_eq_none.mpr hnone] at hold
      cases hold
    · exact hlt
  rw [history_append, Movement.arrivals_append] at hk hlater
  have hgiven := (numbered_acts repository files (l := l) (by omega)).given n' x.handle
    (LocalEngine.handle?_register hx)
  exact UInt64.lt_iff_toNat_lt.mpr (by omega)

/-- **Nodes keep their identity.** Consider two states of a run in which fewer than 2 ^ 64 - 1 nodes
are created. In the later one each node is there under its own name, no two have the same
incarnation, and each has a smaller one than the counter, which is one more than the number of nodes
that have been created. A node that is there in both states has the same incarnation in both exactly
when it has not been removed in between, and a larger one in the later state if it has. No single
act changes the handle of a node that is there before and after it. -/
theorem incarnation_acts (repository : Option String) (files : FileTree) (before later : List Act)
    (hk : Movement.arrivals ((new repository files).history (before ++ later)) + 1 < 2 ^ 64) :
    let k := Movement.arrivals ((new repository files).history (before ++ later))
    let d := (new repository files).acts before
    let d' := d.acts later
    d'.machinery.engine.next.toNat = k + 1 ∧
    (∀ n x, d'.machinery.engine.nodes.find? n = some x →
      x.handle.name = n ∧ x.handle.incarnation < d'.machinery.engine.next) ∧
    (∀ n n' x x', d'.machinery.engine.nodes.find? n = some x →
      d'.machinery.engine.nodes.find? n' = some x' →
        x.handle.incarnation = x'.handle.incarnation → n = n') ∧
    (∀ n x x', d.machinery.engine.nodes.find? n = some x →
      d'.machinery.engine.nodes.find? n = some x' →
        (x'.handle.incarnation = x.handle.incarnation ↔ .departure n ∉ d.history later) ∧
        (.departure n ∈ d.history later → x.handle.incarnation < x'.handle.incarnation)) ∧
    ∀ a n x x', d'.machinery.engine.nodes.find? n = some x →
      (d'.act a).machinery.engine.nodes.find? n = some x' → x'.handle = x.handle := by
  intro k d d'
  have hsplit : k = Movement.arrivals ((new repository files).history before) +
      Movement.arrivals (d.history later) := by
    rw [← Movement.arrivals_append, ← history_append]
  have hd : d.register.Numbered (Movement.arrivals ((new repository files).history before)) :=
    numbered_acts repository files (by omega)
  have hd' : d'.register.Numbered k := by
    rw [hsplit]
    exact hd.moves (moves_acts d later) (by omega)
  have hnext : d'.machinery.engine.next.toNat = k + 1 := hd'.toNat_next hk
  refine ⟨hnext, fun n x hx => ?_, fun n n' x x' hx hx' => ?_, fun n x x' hx hx' => ?_,
    fun a n x x' hx hx' => ?_⟩
  · have hle := hd'.given n x.handle (LocalEngine.handle?_register hx)
    refine ⟨hd'.named n x.handle (LocalEngine.handle?_register hx), ?_⟩
    exact UInt64.lt_iff_toNat_lt.mpr (hnext ▸ Nat.lt_succ_of_le hle)
  · exact hd'.once n n' x.handle x'.handle (LocalEngine.handle?_register hx)
      (LocalEngine.handle?_register hx')
  · exact (moves_acts d later).incarnation_eq_iff hd (by omega) (LocalEngine.handle?_register hx)
      (LocalEngine.handle?_register hx')
  · exact d'.keeps_act a n x.handle x'.handle (LocalEngine.handle?_register hx)
      (LocalEngine.handle?_register hx')

/-- A node is created, and the pool forgets everything. -/
def settling : List Act := [.call (.create Sample.node Sample.definition), .reset]

/-- The node is not created again, it is removed, and it is created again. -/
def comeback : List Act :=
  [.call (.create Sample.node Sample.definition), .call (.remove Sample.handle),
    .call (.create Sample.node Sample.definition)]

theorem incarnation_of_created_again :
    let x : EngineNode := ⟨⟨Sample.node, 1⟩, Sample.definition, none⟩
    let x' : EngineNode := ⟨⟨Sample.node, 2⟩, Sample.definition, none⟩
    let d := (new none .empty).acts settling
    d.machinery.engine.nodes.find? Sample.node = some x ∧
      (d.acts comeback).machinery.engine.nodes.find? Sample.node = some x' ∧
      x.handle.incarnation < x'.handle.incarnation := by
  intro x x' d
  have hx : d.machinery.engine.nodes.find? Sample.node = some x := by decide
  have hx' : (d.acts comeback).machinery.engine.nodes.find? Sample.node = some x' := by decide
  have hgone : .departure Sample.node ∈ d.history comeback := by decide
  have hnumbers := incarnation_acts none .empty settling comeback (by decide)
  exact ⟨hx, hx', (hnumbers.2.2.2.1 Sample.node x x' hx hx').2 hgone⟩

/-- A node is created and removed. -/
def turnover : List Act :=
  [.call (.create Sample.node Sample.definition), .call (.remove Sample.handle)]

/-- A deployment with these nodes whose counter has come some way. -/
def counted (nodes : Keyed NodeName EngineNode) (next : UInt64) : Deployment :=
  { new none .empty with machinery := ⟨⟨nodes, next, false⟩, fun _ _ => none⟩ }

/-- The node alone, as it is when it has been created. -/
def alone (incarnation : UInt64) : Keyed NodeName EngineNode :=
  (∅ : Keyed NodeName EngineNode).insert Sample.node
    ⟨⟨Sample.node, incarnation⟩, Sample.definition, none⟩

theorem find?_alone (incarnation : UInt64) : (alone incarnation).find? Sample.node =
    some ⟨⟨Sample.node, incarnation⟩, Sample.definition, none⟩ := by
  rw [alone, Keyed.find?_insert, if_pos rfl]

theorem act_create (next : UInt64) :
    (counted ∅ next).act (.call (.create Sample.node Sample.definition)) =
      counted (alone next) (next + 1) := rfl

theorem act_remove (next : UInt64) :
    (counted (alone next) (next + 1)).act (.call (.remove Sample.handle)) =
      counted ∅ (next + 1) := by
  have hfind : (alone next).find? Sample.handle.name = _ := find?_alone next
  have herase : (alone next).erase Sample.handle.name = ∅ := by
    refine Keyed.ext_find? fun n => ?_
    rw [Keyed.find?_erase, alone, Keyed.find?_insert]
    split
    · rfl
    · next hne => exact if_neg hne
  simp [act, counted, withMachinery, Machinery.answer, LocalEngine.answer, LocalEngine.remove,
    LocalEngine.idleNode, LocalEngine.settle, hfind, herase, Except.map]

theorem arrivals_create (next : UInt64) : Movement.arrivals ((counted ∅ next).movements
    (.call (.create Sample.node Sample.definition))) = 1 := rfl

/-- No node comes when one is removed. -/
theorem arrivals_remove (d : Deployment) (handle : NodeHandle) :
    Movement.arrivals (d.movements (.call (.remove handle))) = 0 := by
  refine List.countP_eq_zero.mpr fun m hm => ?_
  rw [Call.not_isArrival_of_movement? rfl (Option.mem_toList.mp hm)]
  exact Bool.false_ne_true

/-- Each time the node is created and removed the counter moves on by one. -/
theorem acts_turnovers (n : Nat) (next : UInt64) :
    (counted ∅ next).acts (List.replicate n turnover).flatten = counted ∅ (next + .ofNat n) ∧
      Movement.arrivals ((counted ∅ next).history (List.replicate n turnover).flatten) = n := by
  induction n generalizing next with
  | zero => exact ⟨congrArg (counted ∅) (UInt64.add_zero next).symm, rfl⟩
  | succ n ih =>
    have hone : (counted ∅ next).acts turnover = counted ∅ (next + 1) := by
      rw [turnover, acts, List.foldl_cons, act_create, List.foldl_cons, act_remove, List.foldl_nil]
    have hcount : Movement.arrivals ((counted ∅ next).history turnover) = 1 := by
      rw [turnover, history, history, history, List.append_nil, Movement.arrivals_append,
        arrivals_create, arrivals_remove]
    obtain ⟨hacts, harrivals⟩ := ih (next + 1)
    rw [List.replicate_succ, List.flatten_cons, acts_append, history_append,
      Movement.arrivals_append, hone, hacts, hcount, harrivals]
    refine ⟨congrArg (counted ∅) ?_, Nat.add_comm 1 n⟩
    rw [UInt64.add_assoc, Nat.add_comm, UInt64.ofNat_add]
    rfl

/-- When 2 ^ 64 - 1 nodes have been created the counter has come round, and the node that is there
has no smaller incarnation. -/
theorem counter_wraps :
    let run := (List.replicate (2 ^ 64 - 2) turnover).flatten ++
      [.call (.create Sample.node Sample.definition)]
    let d := (new none .empty).acts run
    Movement.arrivals ((new none .empty).history run) = 2 ^ 64 - 1 ∧
      ∃ x, d.machinery.engine.nodes.find? Sample.node = some x ∧
        ¬x.handle.incarnation < d.machinery.engine.next := by
  intro run d
  have hstart : new none .empty = counted ∅ 1 := rfl
  obtain ⟨hacts, harrivals⟩ := acts_turnovers (2 ^ 64 - 2) 1
  constructor
  · rw [hstart, history_append, Movement.arrivals_append, harrivals, hacts, history, history,
      List.append_nil, arrivals_create]
    omega
  · have hd : d = counted (alone (1 + .ofNat (2 ^ 64 - 2))) (1 + .ofNat (2 ^ 64 - 2) + 1) := by
      change (new none .empty).acts run = _
      rw [hstart, acts_append, hacts, acts, List.foldl_cons, act_create, List.foldl_nil]
    rw [hd]
    exact ⟨_, find?_alone _, by decide⟩

end Deployment

end NodeLending
