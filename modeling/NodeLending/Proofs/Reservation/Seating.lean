import NodeLending.Proofs.Engine.Transition
import NodeLending.Proofs.Reservation.Stage
import NodeLending.Reservation.Matching

/-!
# What a cycle does

A cycle over the waiting reservations comes to a number of bindings, made one after the other. Each
takes a reservation that waits and puts it on an idle node that may be lent for it. This holds
whatever view the cycle works on and whatever faults the engine has. The end of a reservation is
described in the same way: it takes effect in the queue and on the engine at once, or not at all.

## Main definitions

* `Queue.Seating`: bindings made one after the other.
* `Queue.Release`: the end of a reservation.

## Main results

* `Queue.ensures_maintain`, `Queue.ensures_complete`: cycles and ends of reservations are these.
-/

namespace NodeLending

open Engine (Call)

/-- A look at the nodes changes nothing. -/
theorem LocalEngine.Reacts.eq_of_isIdle {e e' : LocalEngine} {c : Call} {a : c.Answer}
    (h : Reacts c e a e') (hc : c.kind = .isIdle) : e' = e := by
  rcases h with h | ⟨rfl, -⟩
  · cases h <;> first | rfl | cases hc
  · rfl

namespace Engine

variable {e : LocalEngine}

theorem asks_firstIdle (names : List NodeName) : (firstIdle names).Asks (·.kind = .isIdle) := by
  induction names with
  | nil => trivial
  | cons name rest ih =>
    refine Dialogue.Asks.question rfl fun idle => ?_
    cases idle with
    | true => trivial
    | false => exact ih

/-- The first idle node is one of the list. -/
theorem ensures_firstIdle_mem {T : Dialogue.Reaction Call Call.Answer LocalEngine}
    (names : List NodeName) (e : LocalEngine) :
    (firstIdle names).Ensures T (fun o _ => ∀ n ∈ o, n ∈ names) e := by
  induction names generalizing e with
  | nil => simp [firstIdle]
  | cons name rest ih =>
    rw [firstIdle, Dialogue.ensures_bind]
    intro idle e' _
    cases idle with
    | true => simp
    | false => exact (ih e').mono fun o _ h n hn => List.mem_cons_of_mem _ (h n hn)

end Engine

namespace Queue

variable {inventory : Inventory} {q q' : Queue} {e e' : LocalEngine} {bs : List Binding}

/-- Bindings are made one after the other: each takes a reservation that waits and puts it on a node
that is idle and may be lent for it. -/
inductive Seating (inventory : Inventory) :
    Queue → LocalEngine → List Binding → Queue → LocalEngine → Prop
  | nil (q : Queue) (e : LocalEngine) : Seating inventory q e [] q e
  | cons {q q' : Queue} {e e' : LocalEngine} {bs : List Binding} {id : ReservationId}
      {r : Reservation} {name : NodeName} {node : EngineNode}
      (hr : q.entries.find? id = some r) (hp : r.stage = .pending)
      (hc : name ∈ inventory.candidates r.label) (hn : e.nodes.find? name = some node)
      (hidle : node.occupant = none)
      (rest : Seating inventory (q.bind ⟨id, name, r.owner.name⟩)
        (e.put name { node with occupant := some id }) bs q' e') :
      Seating inventory q e (⟨id, name, r.owner.name⟩ :: bs) q' e'

/-- A reservation ends on the node that it runs on. -/
inductive Release (q : Queue) (e : LocalEngine) (id : ReservationId) :
    Binding → Queue → LocalEngine → Prop
  | intro {r : Reservation} {name : NodeName} {node : EngineNode}
      (hr : q.entries.find? id = some r) (hb : r.stage = .bound name)
      (hn : e.nodes.find? name = some node) (ho : node.occupant = some id) :
      Release q e id ⟨id, name, r.owner.name⟩ (q.setStage id (.completed name))
        (e.put name { node with occupant := none })

section Stages

variable {I : Queue → Prop} (hI : ∀ q id stage, I q → I (q.setStage id stage)) (hq : I q)

include hI hq

/-- What a change of a stage keeps is kept by bindings. -/
theorem Seating.keeps (h : Seating inventory q e bs q' e') : I q' := by
  induction h with
  | nil => exact hq
  | cons _ _ _ _ _ _ ih => exact ih (hI _ _ _ hq)

/-- What a change of a stage keeps is kept by the end of a reservation. -/
theorem Release.keeps {id : ReservationId} {b : Binding} (h : Release q e id b q' e') : I q' := by
  cases h with
  | intro => exact hI _ _ _ hq

end Stages

end Queue

/-! ### Cycles -/

namespace Matching

variable {inventory : Inventory} {q : Queue} {e : LocalEngine}

/-- One reservation either stays where it is, or it takes an idle node that may be lent for it. -/
theorem ensures_tryBind (inventory : Inventory) (id : ReservationId) (r : Reservation)
    (e : LocalEngine) :
    (tryBind inventory id r).Ensures LocalEngine.Reacts
      (fun b e' => b = none ∧ e' = e ∨
        ∃ name node, b = some ⟨id, name, r.owner.name⟩ ∧ name ∈ inventory.candidates r.label ∧
          e.nodes.find? name = some node ∧ node.occupant = none ∧
          e' = e.put name { node with occupant := some id }) e := by
  have hsame := (Engine.asks_firstIdle (inventory.candidates r.label)).ensures
    (T := LocalEngine.Reacts) (I := fun e' => e' = e)
    (fun _ _ _ _ hk h heq => (h.eq_of_isIdle hk).trans heq) rfl
  have hmem := Engine.ensures_firstIdle_mem (T := LocalEngine.Reacts)
    (inventory.candidates r.label) e
  rw [tryBind, Dialogue.ensures_bind]
  refine (hsame.and hmem).mono ?_
  rintro o e₁ ⟨rfl, ho⟩
  cases o with
  | none => exact Or.inl ⟨rfl, rfl⟩
  | some name =>
    intro a e₂ ha
    rcases ha with ha | ⟨rfl, f, rfl⟩
    · cases ha with
      | submitted hn hidle => exact Or.inr ⟨name, _, rfl, ho name rfl, hn, hidle, rfl⟩
      | submitRefused => exact Or.inl ⟨rfl, rfl⟩
    · exact Or.inl ⟨rfl, rfl⟩

/-- Reservations that wait, each listed once, are bound one after the other. -/
theorem ensures_bindAll {l : List (ReservationId × Reservation)} (hl : (l.map Prod.fst).Nodup)
    (hp : ∀ x ∈ l, q.entries.find? x.1 = some x.2 ∧ x.2.stage = .pending) (e : LocalEngine) :
    (bindAll inventory l).Ensures LocalEngine.Reacts
      (fun bs e' => Queue.Seating inventory q e bs (bs.foldl Queue.bind q) e') e := by
  induction l generalizing q e with
  | nil => exact .nil q e
  | cons x rest ih =>
    obtain ⟨id, r⟩ := x
    obtain ⟨hid, hrest⟩ := List.nodup_cons.mp hl
    obtain ⟨hr, hpend⟩ := hp (id, r) List.mem_cons_self
    have hp' : ∀ x ∈ rest, q.entries.find? x.1 = some x.2 ∧ x.2.stage = .pending :=
      fun x hx => hp x (List.mem_cons_of_mem _ hx)
    rw [bindAll, Dialogue.ensures_bind]
    refine (ensures_tryBind inventory id r e).mono ?_
    rintro b e₁ (⟨rfl, rfl⟩ | ⟨name, node, rfl, hc, hn, hidle, rfl⟩)
    · rw [Dialogue.ensures_bind]
      exact (ih hrest hp' _).mono fun bs e' h => h
    · have hq : ∀ x ∈ rest, (q.bind ⟨id, name, r.owner.name⟩).entries.find? x.1 = some x.2 ∧
          x.2.stage = .pending := by
        intro x hx
        have hne : x.1 ≠ id := fun heq => hid (List.mem_map.mpr ⟨x, hx, heq⟩)
        rw [Queue.bind, Queue.find?_setStage, if_neg hne]
        exact hp' x hx
      rw [Dialogue.ensures_bind]
      exact (ih hrest hq _).mono fun bs e' h => Queue.Seating.cons hr hpend hc hn hidle h

end Matching

namespace Queue

variable {inventory : Inventory} {q : Queue} {e : LocalEngine}

/-- A cycle makes bindings one after the other. -/
theorem ensures_maintain (q : Queue) (inventory : Inventory) (e : LocalEngine) :
    (q.maintain inventory).Ensures LocalEngine.Reacts
      (fun x e' => Seating inventory q e x.1 x.2 e') e := by
  rw [maintain, Dialogue.ensures_bind]
  exact (Matching.ensures_bindAll q.nodup_pending (fun _ hx => mem_pending.mp hx) e).mono
    fun bs e' h => h

/-! ### Ends of reservations -/

/-- The end of a reservation takes effect in the queue and on the engine, or it is refused and
changes nothing. -/
theorem ensures_complete (q : Queue) (id : ReservationId) (e : LocalEngine) :
    (q.complete id).Ensures LocalEngine.Reacts
      (fun x e' => (∃ b, x.1 = .ok b ∧ Release q e id b x.2 e') ∨
        (∃ err, x.1 = .error err) ∧ x.2 = q ∧ e' = e) e := by
  cases hr : q.entries.find? id with
  | none =>
    simp only [complete, hr]
    exact Or.inr ⟨⟨_, rfl⟩, rfl, rfl⟩
  | some r =>
    cases hs : r.stage with
    | pending =>
      simp only [complete, hr, hs]
      exact Or.inr ⟨⟨_, rfl⟩, rfl, rfl⟩
    | completed name =>
      simp only [complete, hr, hs]
      exact Or.inr ⟨⟨_, rfl⟩, rfl, rfl⟩
    | bound name =>
      simp only [complete, hr, hs]
      intro a e' ha
      rcases ha with ha | ⟨rfl, f, rfl⟩
      · cases ha with
        | completed hn ho => exact Or.inl ⟨_, rfl, .intro hr hs hn ho⟩
        | completeRefused => exact Or.inr ⟨⟨_, rfl⟩, rfl, rfl⟩
      · exact Or.inr ⟨⟨_, rfl⟩, rfl, rfl⟩

end Queue

end NodeLending
