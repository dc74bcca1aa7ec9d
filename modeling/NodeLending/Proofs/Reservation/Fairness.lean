import NodeLending.Proofs.Engine.Breakdown
import NodeLending.Proofs.Reservation.Advertised

/-!
# Fair cycles

On an engine without faults, a cycle over a view whose nodes the engine has serves the reservations
that wait in the order of their arrival. Each takes the least idle node that may be lent for it, and
waits on only if there is none. No call is refused, since a node that is taken has been found idle
just before.

Along a cycle nodes are taken and none is freed. So a reservation that has been left out would find
no node at the end of the cycle either. And a node that goes to a later reservation was idle already
when an earlier one was left out, so it is none that the earlier one accepts.

## Main definitions

* `Inventory.HeldBy`, `Inventory.Lends`: the engine has the nodes, and which of them may be lent.
* `Matching.Round`: reservations are served in turn.
* `Queue.Fair`: what a cycle comes to.

## Main results

* `Matching.ensures_bindAll_round`: a cycle serves reservations in turn.
* `Deployment.fair_maintained`: cycles are fair, and leave nothing to a second one.
-/

namespace NodeLending

open Engine (Call)

/-! ### Nodes that may be lent -/

/-- Of the elements with a property, the one that a list in order lists first comes before the
others. -/
theorem eq_or_rel_of_find? {α : Type} {R : α → α → Prop} {p : α → Bool} {l : List α} {a b : α}
    (hl : l.Pairwise R) (h : l.find? p = some a) (hb : b ∈ l) (hp : p b = true) :
    b = a ∨ R a b := by
  obtain ⟨-, before, after, rfl, hbefore⟩ := List.find?_eq_some_iff_append.mp h
  obtain ⟨-, hafter, -⟩ := List.pairwise_append.mp hl
  rcases List.mem_append.mp hb with hb | hb
  · have hnot := hbefore b hb
    rw [hp] at hnot
    cases hnot
  · rcases List.mem_cons.mp hb with rfl | hb
    · exact .inl rfl
    · exact .inr (List.rel_of_pairwise_cons hafter hb)

namespace Inventory

variable {i : Inventory} {e : LocalEngine} {label : Label.Expr} {n : NodeName}
  {isIdle isIdle' : NodeName → Bool}

/-- The nodes are listed under their names, and the engine has them. -/
def HeldBy (i : Inventory) (e : LocalEngine) : Prop :=
  ∀ n node, i.find? n = some node → node.name = n ∧ e.nodes.find? n ≠ none

/-- The node under a name is in service and has labels that satisfy the expression. -/
def Lends (i : Inventory) (label : Label.Expr) (n : NodeName) : Prop :=
  ∃ node, i.find? n = some node ∧ node.isActive = true ∧ label.accepts node.labels = true

theorem HeldBy.put (h : i.HeldBy e) (name : NodeName) (node : EngineNode) :
    i.HeldBy (e.put name node) := by
  intro n m hm
  obtain ⟨hname, hthere⟩ := h n m hm
  refine ⟨hname, ?_⟩
  rw [LocalEngine.find?_put]
  split
  · exact Option.some_ne_none _
  · exact hthere

theorem HeldBy.find?_ne_none (h : i.HeldBy e) (hn : i.Lends label n) :
    e.nodes.find? n ≠ none := by
  obtain ⟨node, hnode, -⟩ := hn
  exact (h n node hnode).2

/-- The nodes that may be lent are listed by their names. -/
theorem HeldBy.candidates_eq (h : i.HeldBy e) (label : Label.Expr) :
    i.candidates label = (i.filter fun _ node => node.serves label).keys := by
  rw [candidates, Keyed.values, List.filter_map, List.map_map, Keyed.keys, Keyed.filter]
  refine List.map_congr_left fun x hx => ?_
  exact (h x.1 x.2 (i.mem_entries_iff.mp (List.mem_of_mem_filter hx))).1

theorem HeldBy.mem_candidates (h : i.HeldBy e) : n ∈ i.candidates label ↔ i.Lends label n := by
  rw [h.candidates_eq, Keyed.mem_keys_filter]
  simp only [ManagedNode.serves, Bool.and_eq_true, Lends]

/-- No node is lent if none of those that may be lent is idle. -/
theorem HeldBy.select_eq_none_iff (h : i.HeldBy e) :
    i.select label isIdle = none ↔ ∀ n, i.Lends label n → isIdle n = false := by
  rw [select, List.find?_eq_none]
  simp only [h.mem_candidates, Bool.not_eq_true]

/-- With fewer idle nodes there is still none to lend. -/
theorem HeldBy.select_eq_none_of_le (h : i.HeldBy e) (hnone : i.select label isIdle = none)
    (hle : ∀ n, isIdle' n = true → isIdle n = true) : i.select label isIdle' = none := by
  rw [h.select_eq_none_iff] at hnone ⊢
  intro n hn
  rw [Bool.eq_false_iff]
  intro hidle
  exact absurd (hle n hidle) (Bool.eq_false_iff.mp (hnone n hn))

/-- The node that is lent is the least of those that may be lent and are idle. -/
theorem HeldBy.of_select (h : i.HeldBy e) (hn : i.select label isIdle = some n) :
    i.Lends label n ∧ isIdle n = true ∧
      ∀ m, i.Lends label m → isIdle m = true → m = n ∨ compare n m = .lt := by
  refine ⟨h.mem_candidates.mp (List.mem_of_find?_eq_some hn), List.find?_some hn, ?_⟩
  intro m hm hidle
  have hascending : (i.candidates label).Pairwise fun a b => compare a b = .lt := by
    rw [h.candidates_eq]
    exact Keyed.pairwise_keys _
  exact eq_or_rel_of_find? hascending hn (h.mem_candidates.mpr hm) hidle

end Inventory

/-! ### Reservations in turn -/

namespace LocalEngine

variable {e e' : LocalEngine} {name n : NodeName} {node : EngineNode} {id : ReservationId}

/-- The answers of an engine without faults. -/
def Answers : Dialogue.Reaction Call Call.Answer LocalEngine := fun c e a e' => e.Transition c a e'

/-- A node that a reservation has taken is not idle, and the others are as they were. -/
theorem isIdle_put_occupied : (e.put name { node with occupant := some id }).isIdle n = true ↔
    n ≠ name ∧ e.isIdle n = true := by
  rw [isIdle_iff, occupant?_put, isIdle_iff]
  split
  · next heq => exact iff_of_false nofun fun h => h.1 heq
  · next hne => exact ⟨fun h => ⟨hne, h⟩, And.right⟩

/-- A reservation is not refused by a node that is there and idle. -/
theorem Transition.of_submit {b : Binding} {a : Except EngineError Unit}
    (h : e.Transition (.submit b) a e') (hn : e.nodes.find? b.node ≠ none)
    (hidle : e.isIdle b.node = true) :
    ∃ node, e.nodes.find? b.node = some node ∧ a = .ok () ∧
      e' = e.put b.node { node with occupant := some b.reservation } := by
  cases h with
  | submitted h => exact ⟨_, h, rfl, rfl⟩
  | submitRefused h =>
    cases h with
    | failing hc => cases hc
    | unknownNode _ hnone => exact absurd hnone hn
    | occupied _ hnode hr =>
      rw [isIdle_iff, show e.occupant? b.node = _ from occupant?_of_find? hnode, hr] at hidle
      cases hidle

end LocalEngine

/-- The first idle node of a list is found. -/
theorem Engine.ensures_firstIdle (names : List NodeName) (e : LocalEngine) :
    (firstIdle names).Ensures LocalEngine.Answers
      (fun o e' => o = names.find? e.isIdle ∧ e' = e) e := by
  induction names with
  | nil => exact ⟨rfl, rfl⟩
  | cons name rest ih =>
    rw [firstIdle, Dialogue.ensures_bind]
    intro idle e₁ hidle
    cases hidle
    rw [List.find?_cons]
    cases e.isIdle name with
    | true => exact ⟨rfl, rfl⟩
    | false => exact ih

namespace Matching

variable {inventory : Inventory} {e e' : LocalEngine} {l : List (ReservationId × Reservation)}
  {bs : List Binding}

/-- Reservations are served in turn: each takes the least idle node that may be lent for it, and is
left out if there is none. -/
inductive Round (inventory : Inventory) :
    LocalEngine → List (ReservationId × Reservation) → List Binding → LocalEngine → Prop
  | nil (e : LocalEngine) : Round inventory e [] [] e
  | skip {e e' : LocalEngine} {l : List (ReservationId × Reservation)} {bs : List Binding}
      {id : ReservationId} {r : Reservation}
      (hnone : inventory.select r.label e.isIdle = none) (rest : Round inventory e l bs e') :
      Round inventory e ((id, r) :: l) bs e'
  | take {e e' : LocalEngine} {l : List (ReservationId × Reservation)} {bs : List Binding}
      {id : ReservationId} {r : Reservation} {name : NodeName} {node : EngineNode}
      (hsome : inventory.select r.label e.isIdle = some name)
      (hn : e.nodes.find? name = some node)
      (rest : Round inventory (e.put name { node with occupant := some id }) l bs e') :
      Round inventory e ((id, r) :: l) (⟨id, name, r.owner.name⟩ :: bs) e'

/-- One reservation takes the least idle node that may be lent for it, or is left out. -/
theorem ensures_tryBind_select (h : inventory.HeldBy e) (id : ReservationId) (r : Reservation) :
    (tryBind inventory id r).Ensures LocalEngine.Answers
      (fun b e' => b = none ∧ e' = e ∧ inventory.select r.label e.isIdle = none ∨
        ∃ name node, b = some ⟨id, name, r.owner.name⟩ ∧
          inventory.select r.label e.isIdle = some name ∧ e.nodes.find? name = some node ∧
          e' = e.put name { node with occupant := some id }) e := by
  rw [tryBind, Dialogue.ensures_bind]
  refine (Engine.ensures_firstIdle _ e).mono ?_
  rintro o e₁ ⟨ho, rfl⟩
  cases o with
  | none => exact .inl ⟨rfl, rfl, ho.symm⟩
  | some name =>
    intro a e₂ ha
    obtain ⟨hlends, hidle, -⟩ := h.of_select ho.symm
    obtain ⟨node, hn, rfl, rfl⟩ := ha.of_submit (h.find?_ne_none hlends) hidle
    exact .inr ⟨name, node, rfl, ho.symm, hn, rfl⟩

/-- Reservations that are bound one after the other are served in turn. -/
theorem ensures_bindAll_round (h : inventory.HeldBy e) (l : List (ReservationId × Reservation)) :
    (bindAll inventory l).Ensures LocalEngine.Answers (fun bs e' => Round inventory e l bs e') e := by
  induction l generalizing e with
  | nil => exact .nil e
  | cons x l ih =>
    obtain ⟨id, r⟩ := x
    rw [bindAll, Dialogue.ensures_bind]
    refine (ensures_tryBind_select h id r).mono ?_
    rintro b e₁ (⟨rfl, rfl, hnone⟩ | ⟨name, node, rfl, hsome, hn, rfl⟩)
    · rw [Dialogue.ensures_bind]
      exact (ih h).mono fun bs e' hround => .skip hnone hround
    · rw [Dialogue.ensures_bind]
      exact (ih (h.put name _)).mono fun bs e' hround => .take hsome hn hround

namespace Round

/-! ### What a round does to the nodes -/

/-- No node is freed. -/
theorem isIdle_of_isIdle (h : Round inventory e l bs e') {n : NodeName}
    (hn : e'.isIdle n = true) : e.isIdle n = true := by
  induction h with
  | nil => exact hn
  | skip _ _ ih => exact ih hn
  | take _ _ _ ih => exact (LocalEngine.isIdle_put_occupied.mp (ih hn)).2

/-- A node that is taken has been idle. -/
theorem isIdle_node (hi : inventory.HeldBy e) (h : Round inventory e l bs e') {b : Binding}
    (hb : b ∈ bs) : e.isIdle b.node = true := by
  induction h with
  | nil => cases hb
  | skip _ _ ih => exact ih hi hb
  | take hsome _ _ ih =>
    rcases List.mem_cons.mp hb with rfl | hb
    · exact (hi.of_select hsome).2.1
    · exact (LocalEngine.isIdle_put_occupied.mp (ih (hi.put _ _) hb)).2

/-- No node is taken twice. -/
theorem nodup_nodes (hi : inventory.HeldBy e) (h : Round inventory e l bs e') :
    (bs.map Binding.node).Nodup := by
  induction h with
  | nil => exact .nil
  | skip _ _ ih => exact ih hi
  | take _ _ rest ih =>
    refine List.nodup_cons.mpr ⟨fun hmem => ?_, ih (hi.put _ _)⟩
    obtain ⟨b, hb, hnode⟩ := List.mem_map.mp hmem
    exact (LocalEngine.isIdle_put_occupied.mp (rest.isIdle_node (hi.put _ _) hb)).1 hnode

/-- Nodes that are not taken stay as they are. -/
theorem find?_of_not_mem (h : Round inventory e l bs e') {n : NodeName}
    (hn : n ∉ bs.map Binding.node) : e'.nodes.find? n = e.nodes.find? n := by
  induction h with
  | nil => rfl
  | skip _ _ ih => exact ih hn
  | take _ _ _ ih =>
    rw [List.map_cons, List.mem_cons, not_or] at hn
    rw [ih hn.2, LocalEngine.find?_put, if_neg hn.1]

/-- A node that is taken has another occupant, and stays as it is otherwise. -/
theorem find?_of_mem (hi : inventory.HeldBy e) (h : Round inventory e l bs e') {b : Binding}
    (hb : b ∈ bs) : ∃ node, e.nodes.find? b.node = some node ∧
      e'.nodes.find? b.node = some { node with occupant := some b.reservation } := by
  have hnodup := h.nodup_nodes hi
  induction h with
  | nil => cases hb
  | skip _ _ ih => exact ih hi hb hnodup
  | @take _ _ _ _ _ _ name node _ hn rest ih =>
    obtain ⟨hnot, hrest⟩ := List.nodup_cons.mp hnodup
    rcases List.mem_cons.mp hb with rfl | hb
    · exact ⟨node, hn, (rest.find?_of_not_mem hnot).trans (LocalEngine.find?_put.trans (if_pos rfl))⟩
    · have hne : b.node ≠ name := fun heq => hnot (List.mem_map.mpr ⟨b, hb, heq⟩)
      obtain ⟨node', hn', htaken⟩ := ih (hi.put _ _) hb hrest
      rw [LocalEngine.find?_put, if_neg hne] at hn'
      exact ⟨node', hn', htaken⟩

/-- Neither the counter nor the mode of the engine changes. -/
theorem next_failing_eq (h : Round inventory e l bs e') :
    e'.next = e.next ∧ e'.failing = e.failing := by
  induction h with
  | nil => exact ⟨rfl, rfl⟩
  | skip _ _ ih => exact ih
  | take _ _ _ ih => exact ih

/-- The engine still has the nodes. -/
theorem heldBy (hi : inventory.HeldBy e) (h : Round inventory e l bs e') :
    inventory.HeldBy e' := by
  induction h with
  | nil => exact hi
  | skip _ _ ih => exact ih hi
  | take _ _ _ ih => exact ih (hi.put _ _)

/-! ### Who is served -/

/-- The reservations that are served are among those that wait, in the same order. -/
theorem sublist (h : Round inventory e l bs e') :
    (bs.map Binding.reservation).Sublist (l.map Prod.fst) := by
  induction h with
  | nil => exact .slnil
  | skip _ _ ih => exact ih.cons _
  | take _ _ _ ih => exact ih.cons_cons _

/-- A reservation gets the least of the idle nodes that earlier ones have left. -/
theorem select_of_eq_append (h : Round inventory e l bs e') {earlier later : List Binding}
    {b : Binding} (hbs : bs = earlier ++ b :: later) :
    ∃ r, (b.reservation, r) ∈ l ∧ b.owner = r.owner.name ∧
      inventory.select r.label (fun n => e.isIdle n && decide (n ∉ earlier.map Binding.node)) =
        some b.node := by
  induction h generalizing earlier with
  | nil => simp at hbs
  | skip _ _ ih =>
    obtain ⟨r, hr, hselect⟩ := ih hbs
    exact ⟨r, List.mem_cons_of_mem _ hr, hselect⟩
  | @take _ _ _ _ _ r name _ hsome _ _ ih =>
    cases earlier with
    | nil =>
      obtain ⟨rfl, -⟩ := List.cons.inj hbs
      exact ⟨r, List.mem_cons_self, rfl, by simpa using hsome⟩
    | cons b₀ earlier =>
      obtain ⟨rfl, hrest⟩ := List.cons.inj hbs
      obtain ⟨r, hr, howner, hselect⟩ := ih hrest
      refine ⟨r, List.mem_cons_of_mem _ hr, howner, ?_⟩
      rw [← hselect]
      refine congrArg _ (funext fun n => ?_)
      rw [Bool.eq_iff_iff, Bool.and_eq_true, Bool.and_eq_true, LocalEngine.isIdle_put_occupied,
        decide_eq_true_iff, decide_eq_true_iff, List.map_cons, List.mem_cons, not_or, and_left_comm,
        and_assoc]

/-- A node that is taken may be lent. -/
theorem exists_lends (hi : inventory.HeldBy e) (h : Round inventory e l bs e') {b : Binding}
    (hb : b ∈ bs) : ∃ label, inventory.Lends label b.node := by
  obtain ⟨earlier, later, hbs⟩ := List.append_of_mem hb
  obtain ⟨r, -, -, hselect⟩ := h.select_of_eq_append hbs
  exact ⟨r.label, (hi.of_select hselect).1⟩

/-- A reservation that is left out finds no node at the end either. -/
theorem select_eq_none (hi : inventory.HeldBy e) (h : Round inventory e l bs e')
    {x : ReservationId × Reservation} (hx : x ∈ l) (hout : x.1 ∉ bs.map Binding.reservation) :
    inventory.select x.2.label e'.isIdle = none := by
  induction h with
  | nil => cases hx
  | skip hnone rest ih =>
    rcases List.mem_cons.mp hx with rfl | hx
    · exact hi.select_eq_none_of_le hnone fun _ => rest.isIdle_of_isIdle
    · exact ih hi hx hout
  | take _ _ _ ih =>
    rw [List.map_cons, List.mem_cons, not_or] at hout
    rcases List.mem_cons.mp hx with rfl | hx
    · exact absurd rfl hout.1
    · exact ih (hi.put _ _) hx hout.2

/-- A node does not go past a reservation that accepts it: no reservation that is left out would
take the node of a later one. -/
theorem not_lends (hi : inventory.HeldBy e) (h : Round inventory e l bs e')
    (hl : l.Pairwise fun x y => compare x.1 y.1 = .lt) {x : ReservationId × Reservation}
    (hx : x ∈ l) (hout : x.1 ∉ bs.map Binding.reservation) {b : Binding} (hb : b ∈ bs)
    (hlt : compare x.1 b.reservation = .lt) : ¬inventory.Lends x.2.label b.node := by
  induction h with
  | nil => cases hx
  | skip hnone rest ih =>
    rcases List.mem_cons.mp hx with rfl | hx
    · -- The node of the later reservation has been idle all along.
      intro hlends
      have hbusy := hi.select_eq_none_iff.mp hnone b.node hlends
      rw [rest.isIdle_node hi hb] at hbusy
      cases hbusy
    · exact ih hi (List.pairwise_cons.mp hl).2 hx hout hb
  | take _ _ _ ih =>
    obtain ⟨hfirst, hl⟩ := List.pairwise_cons.mp hl
    rw [List.map_cons, List.mem_cons, not_or] at hout
    rcases List.mem_cons.mp hx with rfl | hx
    · exact absurd rfl hout.1
    · rcases List.mem_cons.mp hb with rfl | hb
      · exact absurd hlt (Std.OrientedCmp.not_lt_of_lt (hfirst x hx))
      · exact ih (hi.put _ _) hl hx hout.2 hb

/-- Nothing is bound if no reservation finds a node. -/
theorem eq_nil (h : Round inventory e l bs e')
    (hl : ∀ x ∈ l, inventory.select x.2.label e.isIdle = none) : bs = [] := by
  induction h with
  | nil => rfl
  | skip _ _ ih => exact ih fun x hx => hl x (List.mem_cons_of_mem _ hx)
  | take hsome => exact absurd (hsome.symm.trans (hl _ List.mem_cons_self)) nofun

end Round

end Matching

/-! ### Fair cycles -/

namespace Queue

variable {inventory : Inventory} {q : Queue} {e e' : LocalEngine} {bs : List Binding}

/-- What a cycle comes to that is fair and leaves no node idle without need. -/
structure Fair (inventory : Inventory) (q : Queue) (e : LocalEngine) (bs : List Binding)
    (q' : Queue) (e' : LocalEngine) : Prop where
  /-- No reservation waits that an idle node may be lent for. -/
  conserving : ∀ x ∈ q'.pending, ∀ n, inventory.Lends x.2.label n → e'.isIdle n = false
  /-- What is bound has waited, and gets the least idle node that may be lent for it and that is not
  taken by an earlier binding. -/
  least : ∀ earlier b later, bs = earlier ++ b :: later →
    ∃ r, (b.reservation, r) ∈ q.pending ∧ b.owner = r.owner.name ∧
      (inventory.Lends r.label b.node ∧ e.isIdle b.node = true ∧
        b.node ∉ earlier.map Binding.node) ∧
      ∀ n, inventory.Lends r.label n → e.isIdle n = true → n ∉ earlier.map Binding.node →
        n = b.node ∨ compare b.node n = .lt
  /-- What still waits does not accept the node of a later reservation. -/
  orderly : ∀ b ∈ bs, ∀ x ∈ q'.pending, compare x.1 b.reservation = .lt →
    ∀ node, inventory.find? b.node = some node → x.2.label.accepts node.labels = false
  /-- Reservations are bound in the order of their numbers. -/
  ascending : bs.Pairwise fun b b' => compare b.reservation b'.reservation = .lt
  /-- No node is taken twice. -/
  nodup : (bs.map Binding.node).Nodup
  /-- Of the reservations that are bound the stage changes. -/
  bound : ∀ b ∈ bs, q'.entries.find? b.reservation =
    (q.entries.find? b.reservation).map fun r => { r with stage := .bound b.node }
  /-- The other reservations stay as they are. -/
  others : ∀ id, id ∉ bs.map Binding.reservation → q'.entries.find? id = q.entries.find? id
  /-- No number is given out. -/
  numbers : q'.next = q.next
  /-- Of the nodes that are taken the occupant changes. -/
  taken : ∀ b ∈ bs, ∃ node, e.nodes.find? b.node = some node ∧
    e'.nodes.find? b.node = some { node with occupant := some b.reservation }
  /-- The other nodes stay as they are. -/
  untouched : ∀ n, n ∉ bs.map Binding.node → e'.nodes.find? n = e.nodes.find? n
  /-- Neither the counter nor the mode of the engine changes. -/
  engine : e'.next = e.next ∧ e'.failing = e.failing

theorem pairwise_pending (q : Queue) : q.pending.Pairwise fun x y => compare x.1 y.1 = .lt :=
  q.entries.ascending.filter _

/-- Bindings leave the other reservations as they are. -/
theorem find?_foldl_bind_of_not_mem {id : ReservationId} (h : id ∉ bs.map Binding.reservation)
    (q : Queue) : (bs.foldl bind q).entries.find? id = q.entries.find? id := by
  induction bs generalizing q with
  | nil => rfl
  | cons b bs ih =>
    rw [List.map_cons, List.mem_cons, not_or] at h
    rw [List.foldl_cons, ih h.2, bind, find?_setStage, if_neg h.1]

/-- Of a reservation that is bound the stage changes. -/
theorem find?_foldl_bind_of_mem (hnodup : (bs.map Binding.reservation).Nodup) {b : Binding}
    (hb : b ∈ bs) (q : Queue) : (bs.foldl bind q).entries.find? b.reservation =
      (q.entries.find? b.reservation).map fun r => { r with stage := .bound b.node } := by
  induction bs generalizing q with
  | nil => cases hb
  | cons b₀ bs ih =>
    obtain ⟨hnot, hrest⟩ := List.nodup_cons.mp hnodup
    rw [List.foldl_cons]
    rcases List.mem_cons.mp hb with rfl | hb
    · rw [find?_foldl_bind_of_not_mem hnot, bind, find?_setStage, if_pos rfl]
    · have hne : b.reservation ≠ b₀.reservation :=
        fun heq => hnot (List.mem_map.mpr ⟨b, hb, heq⟩)
      rw [ih hrest hb, bind, find?_setStage, if_neg hne]

theorem next_foldl_bind (bs : List Binding) (q : Queue) : (bs.foldl bind q).next = q.next := by
  induction bs generalizing q with
  | nil => rfl
  | cons b bs ih => exact (ih _).trans (next_setStage q _ _)

/-- What waits after bindings has waited before, and is none of those that are bound. -/
theorem of_mem_pending_foldl_bind (hnodup : (bs.map Binding.reservation).Nodup)
    {x : ReservationId × Reservation} (hx : x ∈ (bs.foldl bind q).pending) :
    x ∈ q.pending ∧ x.1 ∉ bs.map Binding.reservation := by
  obtain ⟨hfind, hstage⟩ := mem_pending.mp hx
  have hout : x.1 ∉ bs.map Binding.reservation := by
    intro hmem
    obtain ⟨b, hb, hid⟩ := List.mem_map.mp hmem
    rw [← hid, find?_foldl_bind_of_mem hnodup hb, Option.map_eq_some_iff] at hfind
    obtain ⟨r, -, hr⟩ := hfind
    rw [← hr] at hstage
    cases hstage
  rw [find?_foldl_bind_of_not_mem hout] at hfind
  exact ⟨mem_pending.mpr ⟨hfind, hstage⟩, hout⟩

/-- A cycle on an engine without faults serves the reservations that wait in turn. -/
theorem ensures_maintain_round (hi : inventory.HeldBy e) (q : Queue) :
    (q.maintain inventory).Ensures LocalEngine.Answers
      (fun x e' => Matching.Round inventory e q.pending x.1 e' ∧ x.2 = x.1.foldl bind q) e := by
  rw [maintain, Dialogue.ensures_bind]
  exact (Matching.ensures_bindAll_round hi q.pending).mono fun bs e' h => ⟨h, rfl⟩

end Queue

namespace Matching.Round

variable {inventory : Inventory} {q : Queue} {e e' : LocalEngine} {bs : List Binding}

theorem ascending (h : Round inventory e q.pending bs e') :
    bs.Pairwise fun b b' => compare b.reservation b'.reservation = .lt := by
  have hpending : (q.pending.map Prod.fst).Pairwise fun id id' => compare id id' = .lt :=
    List.pairwise_map.mpr q.pairwise_pending
  exact List.pairwise_map.mp (hpending.sublist h.sublist)

/-- No reservation that waits after a round finds a node. -/
theorem select_eq_none_of_pending (hi : inventory.HeldBy e)
    (h : Round inventory e q.pending bs e') {x : ReservationId × Reservation}
    (hx : x ∈ (bs.foldl Queue.bind q).pending) :
    inventory.select x.2.label e'.isIdle = none := by
  obtain ⟨hwaited, hout⟩ := Queue.of_mem_pending_foldl_bind (q.nodup_pending.sublist h.sublist) hx
  exact h.select_eq_none hi hwaited hout

/-- To serve the reservations in turn is fair. -/
theorem fair (hi : inventory.HeldBy e) (h : Round inventory e q.pending bs e') :
    q.Fair inventory e bs (bs.foldl Queue.bind q) e' := by
  have hnodup : (bs.map Binding.reservation).Nodup := q.nodup_pending.sublist h.sublist
  refine
    { conserving := fun x hx n hn => ?_
      least := fun earlier b later hbs => ?_
      orderly := fun b hb x hx hlt node hnode => ?_
      ascending := h.ascending
      nodup := h.nodup_nodes hi
      bound := fun b hb => Queue.find?_foldl_bind_of_mem hnodup hb q
      others := fun id hid => Queue.find?_foldl_bind_of_not_mem hid q
      numbers := Queue.next_foldl_bind bs q
      taken := fun b hb => h.find?_of_mem hi hb
      untouched := fun n hn => h.find?_of_not_mem hn
      engine := h.next_failing_eq }
  · exact hi.select_eq_none_iff.mp (h.select_eq_none_of_pending hi hx) n hn
  · obtain ⟨r, hr, howner, hselect⟩ := h.select_of_eq_append hbs
    obtain ⟨hlends, hfree, hmin⟩ := hi.of_select hselect
    rw [Bool.and_eq_true, decide_eq_true_iff] at hfree
    refine ⟨r, hr, howner, ⟨hlends, hfree⟩, fun n hn hidle hleft => hmin n hn ?_⟩
    rw [Bool.and_eq_true, decide_eq_true_iff]
    exact ⟨hidle, hleft⟩
  · obtain ⟨hwaited, hout⟩ := Queue.of_mem_pending_foldl_bind hnodup hx
    have hnot := h.not_lends hi q.pairwise_pending hwaited hout hb hlt
    -- The node is in service, so it can only be the labels that keep it from being lent.
    obtain ⟨_, node', hnode', hactive, -⟩ := h.exists_lends hi hb
    obtain rfl := Option.some.inj (hnode.symm.trans hnode')
    exact Bool.eq_false_iff.mpr fun haccepts => hnot ⟨node, hnode, hactive, haccepts⟩

end Matching.Round

namespace Deployment

variable {full : Prop} {d : Deployment} {view : PoolView}

/-- The engine has the nodes of the pool. -/
theorem Reachable.heldBy (hd : d.Reachable full) : d.inventory.HeldBy d.machinery.engine := by
  intro n node hnode
  obtain ⟨hname, occupant, hthere⟩ := hd.inLine.shown hnode
  refine ⟨hname, ?_⟩
  rw [hthere]
  exact Option.some_ne_none _

/-- A cycle of a deployment whose engine has no faults serves the reservations that wait in turn. -/
theorem round_maintained (hclear : d.machinery.Clear)
    (hheld : view.inventory.HeldBy d.machinery.engine) :
    Matching.Round view.inventory d.machinery.engine d.queue.pending (d.maintained view).1.1
      (d.maintained view).2.engine ∧
    (d.maintained view).1.2 = (d.maintained view).1.1.foldl Queue.bind d.queue := by
  have hanswer : ∀ c (m : Machinery), m.Clear → (m.answer c).2.Clear ∧
      LocalEngine.Answers c m.engine (m.answer c).1 (m.answer c).2.engine := by
    intro c m hm
    refine ⟨(hm.answer c).1, ?_⟩
    rw [hm.answer_eq]
    exact m.engine.transition c
  exact ((Queue.ensures_maintain_round hheld d.queue).run hanswer hclear).2

/-- **Cycles are fair, and nothing is left to do after one.** The engine of a deployment has the
nodes of its pool. Let there be no fault, and let a cycle go over a view whose nodes the engine has,
the published one for instance. Then the cycle is fair, it touches only the reservations that it
binds and the occupants of their nodes, and a second cycle right after it binds nothing. -/
theorem fair_maintained (hd : d.Reachable full) (hclear : d.machinery.Clear) :
    d.inventory.HeldBy d.machinery.engine ∧
    d.maintain = ((d.maintained d.pool.view).1.1, d.act (.maintainOver d.pool.view)) ∧
    ∀ view : PoolView, view.inventory.HeldBy d.machinery.engine →
      let bs := (d.maintained view).1.1
      let d' := d.act (.maintainOver view)
      d.queue.Fair view.inventory d.machinery.engine bs d'.queue d'.machinery.engine ∧
      d' = (d.withMachinery ⟨d'.machinery.engine, d.machinery.fault?⟩).withQueue d'.queue ∧
      (d'.maintained view).1.1 = [] := by
  refine ⟨hd.heldBy, rfl, fun view hheld => ?_⟩
  intro bs d'
  obtain ⟨hround, hqueue⟩ := round_maintained hclear hheld
  have hfault : d'.machinery.fault? = d.machinery.fault? := Machinery.fault?_run _ _
  have hqueue' : d'.queue = bs.foldl Queue.bind d.queue := hqueue
  refine ⟨hqueue' ▸ hround.fair hheld, ?_, ?_⟩
  · rw [← hfault]
    rfl
  · have hclear' : d'.machinery.Clear := fun kind name => by rw [hfault, hclear]
    obtain ⟨hagain, -⟩ := round_maintained hclear' (hround.heldBy hheld)
    refine hagain.eq_nil fun x hx => ?_
    rw [hqueue'] at hx
    exact hround.select_eq_none_of_pending hheld hx

end Deployment

namespace Sample

/-- Three reservations arrive, the first one for a label that the node of the laboratory does not
have. -/
def arrivals : List Act :=
  [.enqueue party (.atom "b"), .enqueue party (.atom "a"), .enqueue party (.atom "n1")]

/-- They wait in the laboratory. -/
def crowd : Deployment := laboratory.acts arrivals

theorem reachable_crowd : crowd.Reachable True :=
  reachable_laboratory.acts (by simp [arrivals, Act.Orderly]) (by simp [arrivals])

theorem clear_crowd : crowd.machinery.Clear := by
  have hsame : ∀ d : Deployment, (d.acts arrivals).machinery = d.machinery := fun _ => rfl
  rw [crowd, hsame]
  exact clear_laboratory

theorem crowd_maintained :
    (crowd.maintained crowd.pool.view).1.1 = [⟨⟨2⟩, node, party.name⟩] := by
  simp only [crowd, arrivals, Deployment.acts, List.foldl_cons, List.foldl_nil, laboratory,
    Deployment.act, Deployment.applied]
  rw [Pass.run_of_read read_research]
  decide

end Sample

/-- The first reservation does not keep the second one from the node, and the third one waits. -/
theorem Deployment.fair_maintained_of_unfit_first :
    Sample.crowd.queue.Fair Sample.crowd.inventory Sample.crowd.machinery.engine
      [⟨⟨2⟩, Sample.node, Sample.party.name⟩] Sample.crowd.maintain.2.queue
      Sample.crowd.maintain.2.machinery.engine ∧
    Sample.crowd.maintain.2.maintain.1 = [] := by
  have hsame : ∀ d : Deployment, (d.act (.maintainOver d.pool.view)).maintain.1 =
      ((d.act (.maintainOver d.pool.view)).maintained d.pool.view).1.1 := fun _ => rfl
  obtain ⟨hheld, hmaintain, hcycle⟩ := fair_maintained Sample.reachable_crowd Sample.clear_crowd
  obtain ⟨hfair, -, hagain⟩ := hcycle Sample.crowd.pool.view hheld
  rw [hmaintain, hsame, ← Sample.crowd_maintained]
  exact ⟨hfair, hagain⟩

end NodeLending
