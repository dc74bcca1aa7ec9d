import Mathlib.Algebra.Group.Nat.Defs
import NodeLending.Proofs.Engine.Transition

/-!
# Nodes that come and go

A node comes to an engine when it is created and leaves it when it is removed; nothing else that is
done to an engine touches the handles of its nodes. The movements of nodes, in order, therefore say
all about who is there. A new node gets the number of the counter, which goes up by one, so a handle
tells how many nodes have come before its own.

The number of a handle that is there now and was not there at an earlier time is larger than the
count of all nodes that had come by then.

## Main definitions

* `Movement`, and `Engine.Call.movement?`, the movement that the answer to a call is about.
* `Register`: the handles of an engine with its counter, and `Register.Moves`, what movements do.
* `Register.Numbered`: the numbers given out so far.
* `Machinery.movements`: the movements of an activity.

## Main results

* `Register.Numbered.moves`: the numbers stay in use once only.
* `Register.Moves.origin`: a handle has been there before and stayed, or is a later one.
* `Register.Moves.given`: which number a node gets that comes.
* `Machinery.moves_run`: an activity does to the register what its movements do.
* `Register.Keeps.of_moves`: while nodes first come and then go, those that stay keep their handles.
-/

namespace NodeLending

open Engine (Call Exchange)

/-- A node comes or goes. -/
inductive Movement where
  /-- The node has been created. -/
  | arrival (name : NodeName)
  /-- The node has been removed. -/
  | departure (name : NodeName)
  deriving DecidableEq, Repr

namespace Movement

/-- Whether the node comes. -/
def isArrival : Movement → Bool
  | arrival _ => true
  | departure _ => false

/-- The number of nodes that have come. -/
def arrivals (l : List Movement) : Nat := l.countP isArrival

@[simp] theorem arrivals_nil : arrivals [] = 0 := rfl

@[simp] theorem arrivals_arrival {n : NodeName} {l : List Movement} :
    arrivals (arrival n :: l) = arrivals l + 1 := by
  rw [arrivals, List.countP_cons_of_pos rfl, arrivals]

@[simp] theorem arrivals_departure {n : NodeName} {l : List Movement} :
    arrivals (departure n :: l) = arrivals l := by
  rw [arrivals, List.countP_cons_of_neg Bool.false_ne_true, arrivals]

theorem arrivals_append (l l' : List Movement) :
    arrivals (l ++ l') = arrivals l + arrivals l' := List.countP_append

end Movement

namespace Engine.Call

/-- The movement that the answer to a call is about. -/
def movement? : (c : Call) → c.Answer → Option Movement
  | create name _, .ok _ => some (.arrival name)
  | remove handle, .ok _ => some (.departure handle.name)
  | _, _ => none

variable {c : Call} {a : c.Answer} {m : Movement}

/-- Without calls that remove nodes, nodes only come. -/
theorem isArrival_of_movement? (hc : c.isRemove = false) (h : c.movement? a = some m) :
    m.isArrival = true := by
  cases c with
  | create name d =>
    cases a with
    | error err => cases h
    | ok handle => cases h; rfl
  | remove handle => cases hc
  | isIdle | update | existing | submit | complete => cases h

/-- Without calls that create nodes, nodes only go. -/
theorem not_isArrival_of_movement? (hc : c.isCreate = false) (h : c.movement? a = some m) :
    m.isArrival = false := by
  cases c with
  | create name d => cases hc
  | remove handle =>
    cases a with
    | error err => cases h
    | ok u => cases h; rfl
  | isIdle | update | existing | submit | complete => cases h

end Engine.Call

/-! ### Handles and the counter -/

/-- The handles of an engine, by the names of the nodes, and its counter. -/
@[ext] structure Register where
  /-- The handle under a name. -/
  handle? : NodeName → Option NodeHandle
  /-- The number of the next incarnation. -/
  next : UInt64

namespace Register

variable {r r' r'' : Register} {l l' : List Movement} {n : NodeName} {h h' : NodeHandle} {k : Nat}

/-- The register after a node has come. -/
def arrive (r : Register) (name : NodeName) : Register where
  handle? n := if n = name then some ⟨name, r.next⟩ else r.handle? n
  next := r.next + 1

/-- The register after a node has gone. -/
def depart (r : Register) (name : NodeName) : Register :=
  { r with handle? := fun n => if n = name then none else r.handle? n }

theorem handle?_arrive (name : NodeName) :
    (r.arrive name).handle? n = if n = name then some ⟨name, r.next⟩ else r.handle? n := rfl

theorem handle?_depart (name : NodeName) :
    (r.depart name).handle? n = if n = name then none else r.handle? n := rfl

/-- What movements do to a register. A node comes under a free name only. -/
inductive Moves : Register → List Movement → Register → Prop
  | nil (r : Register) : Moves r [] r
  | arrival {r r' : Register} {name : NodeName} {l : List Movement}
      (hfree : r.handle? name = none) (rest : Moves (r.arrive name) l r') :
      Moves r (.arrival name :: l) r'
  | departure {r r' : Register} {name : NodeName} {l : List Movement}
      (rest : Moves (r.depart name) l r') : Moves r (.departure name :: l) r'

theorem Moves.append (h : Moves r l r') (h' : Moves r' l' r'') : Moves r (l ++ l') r'' := by
  induction h with
  | nil r => exact h'
  | arrival hfree _ ih => exact .arrival hfree (ih h')
  | departure _ ih => exact .departure (ih h')

/-- While nodes only come, those that are there stay. -/
theorem Moves.handle?_of_arrivals (hm : Moves r l r') (hl : ∀ m ∈ l, m.isArrival = true)
    (hn : r.handle? n = some h) : r'.handle? n = some h := by
  induction hm with
  | nil r => exact hn
  | @arrival r r' name l hfree rest ih =>
    refine ih (fun m hm => hl m (List.mem_cons_of_mem _ hm)) ?_
    rw [handle?_arrive, if_neg fun heq => ?_, hn]
    rw [heq, hfree] at hn
    cases hn
  | departure rest ih => cases hl _ List.mem_cons_self

/-- While nodes only go, those that are there in the end have been there all the time. -/
theorem Moves.handle?_of_departures (hm : Moves r l r') (hl : ∀ m ∈ l, m.isArrival = false)
    (hn : r'.handle? n = some h) : r.handle? n = some h := by
  induction hm with
  | nil r => exact hn
  | arrival hfree rest ih => cases hl _ List.mem_cons_self
  | departure rest ih =>
    have hold := ih (fun m hm => hl m (List.mem_cons_of_mem _ hm)) hn
    rw [handle?_depart] at hold
    split at hold
    · cases hold
    · exact hold

/-- The nodes that are there before and after keep their handles. -/
def Keeps (r r' : Register) : Prop :=
  ∀ n h h', r.handle? n = some h → r'.handle? n = some h' → h' = h

theorem Keeps.of_eq (heq : r' = r) : r.Keeps r' := by
  intro n h h' hn hn'
  rw [heq, hn] at hn'
  exact (Option.some.inj hn').symm

/-- If nodes first come and then go, those that are there before and after keep their handles. -/
theorem Keeps.of_moves (hcome : Moves r l r') (hl : ∀ m ∈ l, m.isArrival = true)
    (hgo : Moves r' l' r'') (hl' : ∀ m ∈ l', m.isArrival = false) : r.Keeps r'' := by
  intro n h h' hn hn''
  have hn' := hcome.handle?_of_arrivals hl hn
  rw [hgo.handle?_of_departures hl' hn''] at hn'
  exact Option.some.inj hn'

/-- The numbers that have been given out: those from `1` to `k`, each to one node at most, and the
counter has gone on to the number after them. -/
structure Numbered (r : Register) (k : Nat) : Prop where
  /-- The counter is the next number. -/
  next : r.next = UInt64.ofNat (k + 1)
  /-- Every node is there under its own name. -/
  named : ∀ n h, r.handle? n = some h → h.name = n
  /-- The numbers in use have been given out. -/
  given : ∀ n h, r.handle? n = some h → h.incarnation.toNat ≤ k
  /-- No number is in use twice. -/
  once : ∀ n n' h h', r.handle? n = some h → r.handle? n' = some h' →
    h.incarnation = h'.incarnation → n = n'

namespace Numbered

theorem toNat_next (hr : r.Numbered k) (hk : k + 1 < 2 ^ 64) : r.next.toNat = k + 1 := by
  rw [hr.next]
  exact UInt64.toNat_ofNat_of_lt' hk

/-- The number of a new node has not been given out before. -/
theorem arrive (hr : r.Numbered k) (hk : k + 1 < 2 ^ 64) (name : NodeName) :
    (r.arrive name).Numbered (k + 1) := by
  have hnext := hr.toNat_next hk
  have hnew : ∀ n h, r.handle? n = some h → h.incarnation ≠ r.next := by
    intro n h hn heq
    have hle := hr.given n h hn
    rw [heq, hnext] at hle
    omega
  refine ⟨?_, fun n h hn => ?_, fun n h hn => ?_, fun n n' h h' hn hn' heq => ?_⟩
  · change r.next + 1 = _
    rw [hr.next, ← UInt64.ofNat_one, ← UInt64.ofNat_add]
  · rw [handle?_arrive] at hn
    split at hn
    · next hname =>
      cases hn
      exact hname.symm
    · exact hr.named n h hn
  · rw [handle?_arrive] at hn
    split at hn
    · cases hn
      exact Nat.le_of_eq hnext
    · exact Nat.le_succ_of_le (hr.given n h hn)
  · rw [handle?_arrive] at hn hn'
    split at hn <;> split at hn'
    · next hname hname' => rw [hname, hname']
    · cases hn
      exact absurd heq.symm (hnew n' h' hn')
    · cases hn'
      exact absurd heq (hnew n h hn)
    · exact hr.once n n' h h' hn hn' heq

theorem depart (hr : r.Numbered k) (name : NodeName) : (r.depart name).Numbered k := by
  have hold : ∀ n h, (r.depart name).handle? n = some h → r.handle? n = some h := by
    intro n h hn
    rw [handle?_depart] at hn
    split at hn
    · cases hn
    · exact hn
  exact ⟨hr.next, fun n h hn => hr.named n h (hold n h hn),
    fun n h hn => hr.given n h (hold n h hn),
    fun n n' h h' hn hn' => hr.once n n' h h' (hold n h hn) (hold n' h' hn')⟩

/-- Every node that comes gets the number after those given out. -/
theorem moves (hr : r.Numbered k) (hm : Moves r l r') (hk : k + Movement.arrivals l < 2 ^ 64) :
    r'.Numbered (k + Movement.arrivals l) := by
  induction hm generalizing k with
  | nil r => exact hr
  | @arrival r r' name l _ rest ih =>
    rw [Movement.arrivals_arrival] at hk ⊢
    have hrest := ih (hr.arrive (by omega) name) (by omega)
    rwa [Nat.add_assoc, Nat.add_comm 1] at hrest
  | @departure r r' name l rest ih =>
    rw [Movement.arrivals_departure] at hk ⊢
    exact ih (hr.depart name) hk

end Numbered

/-- A handle that is there after some movements has been there before them, and its node has not
gone, or its number is one that had not been given out. -/
theorem Moves.origin (hm : Moves r l r') (hr : r.Numbered k)
    (hk : k + Movement.arrivals l < 2 ^ 64) (hn : r'.handle? n = some h) :
    (r.handle? n = some h ∧ .departure n ∉ l) ∨
      (k < h.incarnation.toNat ∧ (r.handle? n = none ∨ .departure n ∈ l)) := by
  induction hm generalizing k with
  | nil r => exact Or.inl ⟨hn, List.not_mem_nil⟩
  | @arrival r r' name l hfree rest ih =>
    rw [Movement.arrivals_arrival] at hk
    have hnext := hr.toNat_next (by omega)
    rcases ih (hr.arrive (by omega) name) (by omega) hn with ⟨hold, hstay⟩ | ⟨hlt, hgone⟩
    · rw [handle?_arrive] at hold
      split at hold
      · next hname =>
        cases hold
        exact Or.inr ⟨Nat.lt_of_lt_of_eq (Nat.lt_succ_self k) hnext.symm, Or.inl (hname ▸ hfree)⟩
      · exact Or.inl ⟨hold, by simpa using hstay⟩
    · refine Or.inr ⟨by omega, ?_⟩
      rcases hgone with hnone | hgone
      · rw [handle?_arrive] at hnone
        split at hnone
        · cases hnone
        · exact Or.inl hnone
      · exact Or.inr (List.mem_cons_of_mem _ hgone)
  | @departure r r' name l rest ih =>
    rw [Movement.arrivals_departure] at hk
    rcases ih (hr.depart name) hk hn with ⟨hold, hstay⟩ | ⟨hlt, hgone⟩
    · rw [handle?_depart] at hold
      split at hold
      · cases hold
      · next hname => exact Or.inl ⟨hold, by simpa [hname] using hstay⟩
    · refine Or.inr ⟨hlt, ?_⟩
      rcases hgone with hnone | hgone
      · rw [handle?_depart] at hnone
        split at hnone
        · next hname => exact Or.inr (hname ▸ List.mem_cons_self)
        · exact Or.inl hnone
      · exact Or.inr (List.mem_cons_of_mem _ hgone)

/-- A handle that is there after some movements has been there before them, or it has been given to a
node that came, with the number after those of the nodes that came earlier. -/
theorem Moves.given (hm : Moves r l r') (hn : r'.handle? n = some h) :
    r.handle? n = some h ∨ ∃ earlier later, l = earlier ++ .arrival n :: later ∧
      h = ⟨n, r.next + UInt64.ofNat (Movement.arrivals earlier)⟩ := by
  induction hm with
  | nil r => exact .inl hn
  | @arrival r r' name l hfree rest ih =>
    rcases ih hn with hold | ⟨earlier, later, rfl, rfl⟩
    · rw [handle?_arrive] at hold
      split at hold
      · next hname =>
        subst hname
        exact .inr ⟨[], l, rfl, by simpa using (Option.some.inj hold).symm⟩
      · exact .inl hold
    · refine .inr ⟨.arrival name :: earlier, later, rfl, ?_⟩
      rw [Movement.arrivals_arrival, UInt64.ofNat_add, UInt64.add_comm (UInt64.ofNat _),
        ← UInt64.add_assoc]
      rfl
  | @departure r r' name l rest ih =>
    rcases ih hn with hold | ⟨earlier, later, rfl, rfl⟩
    · rw [handle?_depart] at hold
      split at hold
      · cases hold
      · exact .inl hold
    · refine .inr ⟨.departure name :: earlier, later, rfl, ?_⟩
      rw [Movement.arrivals_departure]
      rfl

/-- A node that is there before and after some movements has its incarnation in common exactly when
it has not gone meanwhile. -/
theorem Moves.incarnation_eq_iff (hm : Moves r l r') (hr : r.Numbered k)
    (hk : k + Movement.arrivals l < 2 ^ 64) (hn : r.handle? n = some h)
    (hn' : r'.handle? n = some h') :
    (h'.incarnation = h.incarnation ↔ .departure n ∉ l) ∧
      (.departure n ∈ l → h.incarnation < h'.incarnation) := by
  have hle := hr.given n h hn
  rcases hm.origin hr hk hn' with ⟨hold, hstay⟩ | ⟨hlt, hgone⟩
  · rw [hn] at hold
    cases hold
    exact ⟨iff_of_true rfl hstay, fun hgone => absurd hgone hstay⟩
  · have hless : h.incarnation < h'.incarnation := UInt64.lt_iff_toNat_lt.mpr (by omega)
    have hgone : .departure n ∈ l := hgone.resolve_left (by simp [hn])
    refine ⟨iff_of_false (fun heq => ?_) (not_not_intro hgone), fun _ => hless⟩
    exact UInt64.lt_irrefl _ (heq ▸ hless)

end Register

/-! ### Engines -/

namespace LocalEngine

variable {e e' : LocalEngine} {name n : NodeName} {node : EngineNode}

/-- The handles and the counter of an engine. -/
def register (e : LocalEngine) : Register where
  handle? n := (e.nodes.find? n).map EngineNode.handle
  next := e.next

theorem handle?_register (h : e.nodes.find? n = some node) :
    e.register.handle? n = some node.handle := by
  change (e.nodes.find? n).map _ = _
  rw [h, Option.map_some]

theorem handle?_register_eq_none : e.register.handle? n = none ↔ e.nodes.find? n = none :=
  Option.map_eq_none_iff

/-- Another definition or another user of a node does nothing to the register. -/
theorem register_put_of_find? (h : e.nodes.find? name = some node) (d : NodeDefinition)
    (occupant : Option ReservationId) :
    (e.put name ⟨node.handle, d, occupant⟩).register = e.register := by
  refine Register.ext (funext fun n => ?_) rfl
  change ((e.put name ⟨node.handle, d, occupant⟩).nodes.find? n).map EngineNode.handle =
    (e.nodes.find? n).map EngineNode.handle
  rw [find?_put]
  split
  · next hname => rw [hname, h, Option.map_some, Option.map_some]
  · rfl

theorem register_drop : (e.drop name).register = e.register.depart name := by
  refine Register.ext (funext fun n => ?_) rfl
  change ((e.drop name).nodes.find? n).map _ = if n = name then none else (e.nodes.find? n).map _
  rw [find?_drop]
  split <;> rfl

theorem register_create {d : NodeDefinition} :
    ({ e.put name ⟨⟨name, e.next⟩, d, none⟩ with next := e.next + 1 } : LocalEngine).register =
      e.register.arrive name := by
  refine Register.ext (funext fun n => ?_) rfl
  change ((e.put name ⟨⟨name, e.next⟩, d, none⟩).nodes.find? n).map EngineNode.handle =
    if n = name then some ⟨name, e.next⟩ else (e.nodes.find? n).map EngineNode.handle
  rw [find?_put]
  split <;> rfl

/-- A call does to the register what its movement does. -/
theorem Transition.moves {c : Call} {a : c.Answer} (h : e.Transition c a e') :
    e.register.Moves (c.movement? a).toList e'.register := by
  cases h with
  | created _ h =>
    rw [register_create]
    exact .arrival (handle?_register_eq_none.mpr h) (.nil _)
  | removed _ h _ =>
    rw [register_drop]
    exact .departure (.nil _)
  | updated _ h _ =>
    rw [register_put_of_find? h]
    exact .nil _
  | submitted h _ =>
    rw [register_put_of_find? h]
    exact .nil _
  | completed h _ =>
    rw [register_put_of_find? h]
    exact .nil _
  | _ => exact .nil _

/-- A call that does not reach the engine is about no movement. -/
theorem movement?_fault (f : Fault) (c : Call) : c.movement? (f.answer c) = none := by
  cases c <;> rfl

theorem Reacts.moves {c : Call} {a : c.Answer} (h : Reacts c e a e') :
    e.register.Moves (c.movement? a).toList e'.register := by
  rcases h with h | ⟨rfl, f, rfl⟩
  · exact h.moves
  · rw [movement?_fault]
    exact .nil _

end LocalEngine

namespace Machinery

/-- The movements of an activity, in order. -/
def movements {α : Type} (x : Exchange α) (m : Machinery) : List Movement :=
  match x with
  | .done _ => []
  | .ask c next =>
    (c.movement? (m.answer c).1).toList ++ movements (next (m.answer c).1) (m.answer c).2

variable {α : Type}

theorem movements_ask (c : Call) (next : c.Answer → Exchange α) (m : Machinery) :
    movements (.ask c next) m =
      (c.movement? (m.answer c).1).toList ++ movements (next (m.answer c).1) (m.answer c).2 := rfl

/-- An activity does to the register what its movements do. -/
theorem moves_run (x : Exchange α) (m : Machinery) :
    m.engine.register.Moves (movements x m) (x.run answer m).2.engine.register := by
  induction x generalizing m with
  | done a => exact .nil _
  | ask c next ih => exact (m.reacts c).moves.append (ih _ _)

/-- Every movement of an activity comes of one of its calls. -/
theorem exists_call_of_mem_movements {x : Exchange α} {P : Call → Prop} (h : x.Asks P)
    {m : Machinery} {mv : Movement} (hmv : mv ∈ movements x m) :
    ∃ c a, P c ∧ c.movement? a = some mv := by
  induction x generalizing m with
  | done a => cases hmv
  | ask c next ih =>
    rw [movements_ask, List.mem_append, Option.mem_toList] at hmv
    rcases hmv with hmv | hmv
    · exact ⟨c, _, h.1, hmv⟩
    · exact ih _ (h.2 _) hmv

theorem isArrival_of_mem_movements {x : Exchange α} (h : x.Asks (·.isRemove = false))
    {m : Machinery} : ∀ mv ∈ movements x m, mv.isArrival = true := by
  intro mv hmv
  obtain ⟨c, a, hc, ha⟩ := exists_call_of_mem_movements h hmv
  exact Engine.Call.isArrival_of_movement? hc ha

theorem not_isArrival_of_mem_movements {x : Exchange α} (h : x.Asks (·.isCreate = false))
    {m : Machinery} : ∀ mv ∈ movements x m, mv.isArrival = false := by
  intro mv hmv
  obtain ⟨c, a, hc, ha⟩ := exists_call_of_mem_movements h hmv
  exact Engine.Call.not_isArrival_of_movement? hc ha

end Machinery

end NodeLending
