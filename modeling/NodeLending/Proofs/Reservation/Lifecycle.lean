import Mathlib.Data.List.Chain
import NodeLending.Proofs.Reservation.Occupancy

/-!
# The life of a reservation

Every reservation has the same life, whatever happens around it. It waits under a number of its own;
a cycle may bind it to one node; only its end takes it off that node; and once it has ended, pruning
may forget it. It goes through these stages in this order, leaves none of them out and comes back to
none. Its owner and its label expression are those it was added with, and those that wait are listed
in the order of their arrival.

This holds for every sequence of acts in which fewer than 2 ^ 64 reservations are added, so for
every run of events too, with passes and resets in between.

## Main definitions

* `Deployment.orders`: the reservations that acts add, under the numbers that they get.
* `Deployment.stages`: the stages of a reservation, one before each act and one after the last.
* `Act.Turns`: what an act may do to the stage of a reservation.
* `Reservation.IsCourse`: stages in the order of a life.
* `Queue.Recorded`: a queue that holds nothing but what has been added to it.

## Main results

* `Act.turns_act`: what one act does to a reservation.
* `Queue.Recorded.pending_eq`: those that wait are listed in the order of their arrival.
* `Deployment.lifecycle`: the life of every reservation of a run.
-/

namespace NodeLending

open Reservation (Stage)

/-! ### Lives -/

/-- A list that begins with an item begins with a number of copies of it, and another item follows,
if any does. -/
theorem exists_replicate_append {α : Type} {R : α → α → Prop} {x : α} {l : List α}
    (h : (x :: l).IsChain R) :
    ∃ k rest, x :: l = List.replicate (k + 1) x ++ rest ∧
      (rest = [] ∨ ∃ y l', rest = y :: l' ∧ R x y ∧ y ≠ x ∧ (y :: l').IsChain R) := by
  induction l with
  | nil => exact ⟨0, [], rfl, .inl rfl⟩
  | cons y l ih =>
    obtain ⟨hxy, hchain⟩ := List.isChain_cons_cons.mp h
    by_cases hy : y = x
    · subst hy
      obtain ⟨k, rest, hl, hrest⟩ := ih hchain
      exact ⟨k + 1, rest, by rw [hl, List.replicate_succ (n := k + 1), List.cons_append], hrest⟩
    · exact ⟨0, y :: l, rfl, .inr ⟨y, l, rfl, hxy, hy, hchain⟩⟩

namespace Act

/-- Whether the act binds waiting reservations. -/
def isCycle : Act → Bool
  | maintain | maintainOver _ => true
  | _ => false

/-- What an act may do to the stage of a reservation. -/
inductive Turns (id : ReservationId) : Act → Option Stage → Option Stage → Prop
  /-- The reservation stays where it is. -/
  | keeps (a : Act) (s : Option Stage) : Turns id a s s
  /-- It has waited, and is bound to a node. -/
  | binds {a : Act} (ha : a.isCycle = true) (n : NodeName) :
      Turns id a (some .pending) (some (.bound n))
  /-- It has run on a node, and ends there. -/
  | completes (n : NodeName) : Turns id (.complete id) (some (.bound n)) (some (.completed n))
  /-- It has ended, and is forgotten. -/
  | forgets (n : NodeName) : Turns id .prune (some (.completed n)) none

end Act

/-- Stages in the order of a life: a reservation waits, then it runs on a node, then it has run
there, and then it is forgotten. The life may end at any stage, and no stage is left out before
that. -/
def Reservation.IsCourse (n : NodeName) (l : List (Option Stage)) : Prop :=
  ∃ waiting running ended forgotten : Nat,
    l = List.replicate waiting (some .pending) ++ List.replicate running (some (.bound n)) ++
      List.replicate ended (some (.completed n)) ++ List.replicate forgotten none ∧
    0 < waiting ∧ (running = 0 → ended = 0) ∧ (ended = 0 → forgotten = 0)

namespace Reservation

variable {id : ReservationId} {n : NodeName} {l : List (Option Stage)}

/-- An act may take the one stage to the other. -/
def Follows (id : ReservationId) (s s' : Option Stage) : Prop := ∃ a : Act, a.Turns id s s'

/-- What is forgotten stays so. -/
theorem forgotten_of_isChain (h : (none :: l).IsChain (Follows id)) :
    ∃ k, none :: l = List.replicate (k + 1) none := by
  obtain ⟨k, rest, hl, rfl | ⟨y, l', -, ⟨a, ha⟩, hne, -⟩⟩ := exists_replicate_append h
  · exact ⟨k, by rw [hl, List.append_nil]⟩
  · cases ha
    exact absurd rfl hne

/-- What has ended is forgotten next. -/
theorem ended_of_isChain (h : (some (.completed n) :: l).IsChain (Follows id)) :
    ∃ ended forgotten, some (.completed n) :: l =
      List.replicate (ended + 1) (some (.completed n)) ++ List.replicate forgotten none := by
  obtain ⟨k, rest, hl, rfl | ⟨y, l', rfl, ⟨a, ha⟩, hne, hchain⟩⟩ := exists_replicate_append h
  · exact ⟨k, 0, hl⟩
  · cases ha with
    | keeps => exact absurd rfl hne
    | forgets =>
      obtain ⟨j, hj⟩ := forgotten_of_isChain hchain
      exact ⟨k, j + 1, by rw [hl, hj]⟩

/-- What runs ends next, on the same node. -/
theorem running_of_isChain (h : (some (.bound n) :: l).IsChain (Follows id)) :
    ∃ running ended forgotten, (ended = 0 → forgotten = 0) ∧ some (.bound n) :: l =
      List.replicate (running + 1) (some (.bound n)) ++
        List.replicate ended (some (.completed n)) ++ List.replicate forgotten none := by
  obtain ⟨k, rest, hl, rfl | ⟨y, l', rfl, ⟨a, ha⟩, hne, hchain⟩⟩ := exists_replicate_append h
  · exact ⟨k, 0, 0, fun _ => rfl, by rw [hl]; simp⟩
  · cases ha with
    | keeps => exact absurd rfl hne
    | completes =>
      obtain ⟨ended, forgotten, hl'⟩ := ended_of_isChain hchain
      exact ⟨k, ended + 1, forgotten, nofun, by rw [hl, hl', List.append_assoc]⟩

/-- What waits runs next. -/
theorem exists_isCourse (h : (some .pending :: l).IsChain (Follows id)) :
    ∃ n, IsCourse n (some .pending :: l) := by
  obtain ⟨k, rest, hl, rfl | ⟨y, l', rfl, ⟨a, ha⟩, hne, hchain⟩⟩ := exists_replicate_append h
  · -- It has never been bound, so any node will do.
    exact ⟨Sample.node, k + 1, 0, 0, 0, by rw [hl]; simp, k.succ_pos, fun _ => rfl, fun _ => rfl⟩
  · cases ha with
    | keeps => exact absurd rfl hne
    | binds ha n =>
      obtain ⟨running, ended, forgotten, hended, hl'⟩ := running_of_isChain hchain
      refine ⟨n, k + 1, running + 1, ended, forgotten, ?_, k.succ_pos, nofun, hended⟩
      rw [hl, hl', List.append_assoc, List.append_assoc, List.append_assoc]

end Reservation

/-! ### Steps -/

namespace Queue

variable {inventory : Inventory} {q q' : Queue} {e e' : LocalEngine} {id : ReservationId}

/-- A cycle does nothing to a reservation but bind it when it waits. -/
theorem Seating.stage?_eq_or {bs : List Binding} (h : Seating inventory q e bs q' e')
    (id : ReservationId) : q'.stage? id = q.stage? id ∨
      q.stage? id = some .pending ∧ ∃ n, q'.stage? id = some (.bound n) := by
  induction h with
  | nil => exact .inl rfl
  | @cons q _ _ _ _ j r name _ hr hp _ _ _ _ ih =>
    have hwaits : q.stage? j = some .pending := by rw [stage?, hr, Option.map_some, hp]
    rw [Queue.bind, stage?_setStage] at ih
    by_cases hid : id = j
    · subst hid
      -- It is bound by this binding, and later ones do not find it waiting.
      rw [if_pos rfl, hwaits] at ih
      rcases ih with hlater | ⟨hstill, -⟩
      · exact .inr ⟨hwaits, name, hlater⟩
      · cases hstill
    · rwa [if_neg hid] at ih

/-- The end of a reservation does nothing to others, and ends this one if it runs. -/
theorem Release.stage?_eq_or {b : Binding} (h : Release q e id b q' e') (j : ReservationId) :
    q'.stage? j = q.stage? j ∨
      j = id ∧ ∃ n, q.stage? j = some (.bound n) ∧ q'.stage? j = some (.completed n) := by
  cases h with
  | @intro r name _ hr hb _ _ =>
    have hruns : q.stage? id = some (.bound name) := by rw [stage?, hr, Option.map_some, hb]
    rw [stage?_setStage]
    by_cases hj : j = id
    · subst hj
      exact .inr ⟨rfl, name, hruns, by rw [if_pos rfl, hruns, Option.map_some]⟩
    · exact .inl (if_neg hj)

end Queue

namespace Act

variable {d : Deployment} {id : ReservationId}

/-- A cycle makes one turn of a reservation. -/
theorem turns_maintained {a : Act} (ha : a.isCycle = true) (view : PoolView) :
    a.Turns id (d.queue.stage? id) ((d.maintained view).1.2.stage? id) := by
  rcases (d.seating_maintained view).stage?_eq_or id with h | ⟨hwaits, n, hruns⟩
  · rw [h]
    exact .keeps a _
  · rw [hwaits, hruns]
    exact .binds ha n

/-- An act makes one turn of every reservation whose number it does not give out. -/
theorem turns_act (a : Act) (hnew : a.isEnqueue = true → id ≠ ⟨d.queue.next⟩) :
    a.Turns id (d.queue.stage? id) ((d.act a).queue.stage? id) := by
  cases a with
  | maintain => exact turns_maintained rfl d.pool.view
  | maintainOver view => exact turns_maintained rfl view
  | complete j =>
    change Turns id _ _ ((d.completed j).1.2.stage? id)
    rcases d.release_completed j with ⟨b, -, hrel⟩ | ⟨-, hq, -⟩
    · rcases hrel.stage?_eq_or id with h | ⟨rfl, n, hruns, hended⟩
      · rw [h]
        exact .keeps _ _
      · rw [hruns, hended]
        exact .completes n
    · rw [hq]
      exact .keeps _ _
  | prune =>
    change Turns id _ _ (d.queue.prune.stage? id)
    rw [Queue.stage?_prune]
    -- Only what has ended is forgotten.
    rcases d.queue.stage? id with _ | (_ | n | n)
    · exact .keeps _ _
    · exact .keeps _ _
    · exact .keeps _ _
    · exact .forgets n
  | enqueue owner label =>
    change Turns id _ _ ((d.queue.enqueue owner label).2.stage? id)
    rw [Queue.stage?_enqueue, if_neg (hnew rfl)]
    exact .keeps _ _
  | apply | giveUp | arrange | reset | setFailing | setFault | call => exact .keeps _ _

end Act

/-! ### What has been added -/

namespace Deployment

/-- What changes of stages and pruning keep is kept by every act that adds no reservation. -/
theorem queue_act {d : Deployment} {I : Queue → Prop}
    (hstage : ∀ q id stage, I q → I (q.setStage id stage)) (hprune : ∀ q, I q → I q.prune)
    (hd : I d.queue) {a : Act} (ha : a.isEnqueue = false) : I (d.act a).queue := by
  cases a with
  | enqueue => cases ha
  | maintain => exact (d.seating_maintained d.pool.view).keeps hstage hd
  | maintainOver view => exact (d.seating_maintained view).keeps hstage hd
  | complete id =>
    change I (d.completed id).1.2
    rcases d.release_completed id with ⟨b, -, hrel⟩ | ⟨-, hq, -⟩
    · exact hrel.keeps hstage hd
    · rwa [hq]
  | prune => exact hprune _ hd
  | apply | giveUp | arrange | reset | setFailing | setFault | call => exact hd

/-- The reservation that an act adds, under the number that it gets. -/
def added (d : Deployment) : Act → List (ReservationId × Reservation)
  | .enqueue owner label => [((d.enqueue owner label).1, ⟨owner, label, .pending⟩)]
  | _ => []

/-- The reservations that acts add, under the numbers that they get. -/
def orders (d : Deployment) : List Act → List (ReservationId × Reservation)
  | [] => []
  | a :: l => d.added a ++ (d.act a).orders l

theorem added_eq_nil {d : Deployment} {a : Act} (ha : a.isEnqueue = false) : d.added a = [] := by
  cases a with
  | enqueue => cases ha
  | _ => rfl

/-- The stages of a reservation, one before each act and one after the last. -/
def stages (d : Deployment) (id : ReservationId) : List Act → List (Option Stage)
  | [] => [d.queue.stage? id]
  | a :: l => d.queue.stage? id :: (d.act a).stages id l

theorem length_added (d : Deployment) (a : Act) :
    (d.added a).length = if a.isEnqueue then 1 else 0 := by
  cases a <;> rfl

theorem length_orders (d : Deployment) (l : List Act) :
    (d.orders l).length = l.countP Act.isEnqueue := by
  induction l generalizing d with
  | nil => rfl
  | cons a l ih => rw [orders, List.length_append, ih, length_added, List.countP_cons, Nat.add_comm]

theorem exists_stages_eq_cons (d : Deployment) (id : ReservationId) (l : List Act) :
    ∃ rest, d.stages id l = d.queue.stage? id :: rest := by
  cases l with
  | nil => exact ⟨[], rfl⟩
  | cons a l => exact ⟨(d.act a).stages id l, rfl⟩

end Deployment

namespace Queue

/-- The queue holds nothing but what has been added to it, under ascending numbers. -/
structure Recorded (q : Queue) (orders : List (ReservationId × Reservation)) : Prop where
  /-- As many numbers have been given out as reservations have been added. -/
  numbered : q.Numbered orders.length
  /-- Numbers ascend. -/
  ascending : orders.Pairwise fun x y => x.1.value < y.1.value
  /-- The numbers are those that have been given out. -/
  le : ∀ x ∈ orders, x.1.value.toNat ≤ orders.length
  /-- What is there differs from what has been added in its stage only. -/
  mem : ∀ id r, q.entries.find? id = some r → (id, { r with stage := .pending }) ∈ orders

namespace Recorded

variable {q q' : Queue} {orders : List (ReservationId × Reservation)} {id : ReservationId}

theorem empty : Queue.empty.Recorded [] := by
  refine ⟨.empty, .nil, fun x hx => absurd hx List.not_mem_nil, fun id r hr => ?_⟩
  have hnone : Queue.empty.entries.find? id = none := rfl
  rw [hnone] at hr
  cases hr

theorem setStage (h : q.Recorded orders) (id : ReservationId) (stage : Stage) :
    (q.setStage id stage).Recorded orders := by
  refine ⟨h.numbered.setStage id stage, h.ascending, h.le, fun j r hr => ?_⟩
  rw [find?_setStage] at hr
  split at hr
  · next heq =>
    subst heq
    obtain ⟨r', hr', rfl⟩ := Option.map_eq_some_iff.mp hr
    exact h.mem j r' hr'
  · exact h.mem j r hr

theorem prune (h : q.Recorded orders) : q.prune.Recorded orders := by
  refine ⟨h.numbered.prune, h.ascending, h.le, fun j r hr => h.mem j r ?_⟩
  rw [Queue.prune, Keyed.find?_filter] at hr
  exact (Option.filter_eq_some_iff.mp hr).1

/-- The next number is larger than all that have been given out. -/
theorem toNat_next (h : q.Recorded orders) (hk : orders.length + 1 < 2 ^ 64) :
    q.next.toNat = orders.length + 1 := by
  rw [h.numbered.next, Nat.mod_eq_of_lt hk]

theorem lt_next (h : q.Recorded orders) (hk : orders.length + 1 < 2 ^ 64)
    {x : ReservationId × Reservation} (hx : x ∈ orders) : x.1.value < q.next := by
  have hle := h.le x hx
  have hnext := h.toNat_next hk
  rw [UInt64.lt_iff_toNat_lt]
  omega

/-- New demand is listed last. -/
theorem enqueue (h : q.Recorded orders) (hk : orders.length + 1 < 2 ^ 64) (owner : Party)
    (label : Label.Expr) :
    (q.enqueue owner label).2.Recorded (orders ++ [(⟨q.next⟩, ⟨owner, label, .pending⟩)]) := by
  constructor
  · rw [List.length_append]
    exact h.numbered.enqueue hk owner label
  · refine List.pairwise_append.mpr ⟨h.ascending, List.pairwise_singleton _ _, fun x hx y hy => ?_⟩
    rw [List.mem_singleton.mp hy]
    exact h.lt_next hk hx
  · intro x hx
    rw [List.length_append]
    rcases List.mem_append.mp hx with hx | hx
    · exact Nat.le_succ_of_le (h.le x hx)
    · rw [List.mem_singleton.mp hx]
      exact Nat.le_of_eq (h.toNat_next hk)
  · intro j r hr
    rw [Queue.enqueue, Keyed.find?_insert] at hr
    split at hr
    · next heq =>
      subst heq
      obtain rfl := Option.some.inj hr
      exact List.mem_append_right _ List.mem_cons_self
    · exact List.mem_append_left _ (h.mem j r hr)

/-- One number stands for one reservation. -/
theorem eq_of_fst_eq (h : q.Recorded orders) {x y : ReservationId × Reservation} (hx : x ∈ orders)
    (hy : y ∈ orders) (heq : x.1 = y.1) : x = y := by
  have hnodup : (orders.map Prod.fst).Nodup := by
    refine List.pairwise_map.mpr (h.ascending.imp fun {x y} hlt heq => ?_)
    rw [heq] at hlt
    exact UInt64.lt_irrefl _ hlt
  exact List.inj_on_of_nodup_map hnodup hx hy heq

/-- **The waiting list.** What waits is listed as it has been added, in the order of its arrival. -/
theorem pending_eq (h : q.Recorded orders) :
    q.pending = orders.filter fun x => q.stage? x.1 = some .pending := by
  have hascending : orders.Pairwise fun x y => compare x.1 y.1 = .lt :=
    h.ascending.imp fun hlt => Std.compare_eq_lt.mpr hlt
  refine Keyed.eq_of_mem_iff (q.entries.ascending.filter _) (hascending.filter _) fun x => ?_
  obtain ⟨id, r⟩ := x
  rw [mem_pending, List.mem_filter, decide_eq_true_iff]
  constructor
  · rintro ⟨hr, hp⟩
    have hmem := h.mem id r hr
    rw [← hp] at hmem
    exact ⟨hmem, by rw [stage?, hr, Option.map_some, hp]⟩
  · rintro ⟨hmem, hp⟩
    obtain ⟨r', hr', hp'⟩ := Option.map_eq_some_iff.mp hp
    have hsame := h.eq_of_fst_eq (h.mem id r' hr') hmem rfl
    rw [← hp'] at hsame
    obtain rfl : r' = r := congrArg Prod.snd hsame
    exact ⟨hr', hp'⟩

/-- An act adds what it adds, and loses nothing that has been added. -/
theorem act {d : Deployment} (h : d.queue.Recorded orders) (a : Act)
    (hk : orders.length + (if a.isEnqueue then 1 else 0) < 2 ^ 64) :
    (d.act a).queue.Recorded (orders ++ d.added a) := by
  cases ha : a.isEnqueue with
  | true =>
    cases a with
    | enqueue owner label => exact h.enqueue hk owner label
    | _ => cases ha
  | false =>
    rw [Deployment.added_eq_nil ha, List.append_nil]
    exact Deployment.queue_act (I := (Recorded · orders))
      (fun _ id stage h => h.setStage id stage) (fun _ h => h.prune) h ha

end Recorded

end Queue

/-! ### Runs -/

/-- Acts add what they add, and lose nothing that has been added. -/
theorem Queue.Recorded.acts {d : Deployment} {orders : List (ReservationId × Reservation)}
    (h : d.queue.Recorded orders) {l : List Act}
    (hk : orders.length + l.countP Act.isEnqueue < 2 ^ 64) :
    (d.acts l).queue.Recorded (orders ++ d.orders l) := by
  induction l generalizing d orders with
  | nil => rwa [Deployment.orders, List.append_nil]
  | cons a l ih =>
    rw [List.countP_cons] at hk
    have hfirst := h.act a (by omega)
    rw [Deployment.orders, ← List.append_assoc]
    refine ih hfirst ?_
    rw [List.length_append, Deployment.length_added]
    omega

namespace Deployment

variable {d : Deployment} {orders : List (ReservationId × Reservation)} {id : ReservationId}

/-- An act makes one turn of every reservation that has been added before. -/
theorem turns_of_mem (h : d.queue.Recorded orders) (hid : id ∈ orders.map Prod.fst) {a : Act}
    (hk : orders.length + (if a.isEnqueue then 1 else 0) < 2 ^ 64) :
    a.Turns id (d.queue.stage? id) ((d.act a).queue.stage? id) := by
  refine Act.turns_act a fun ha heq => ?_
  obtain ⟨x, hx, rfl⟩ := List.mem_map.mp hid
  rw [if_pos ha] at hk
  have hlt := h.lt_next hk hx
  rw [heq] at hlt
  exact UInt64.lt_irrefl _ hlt

/-- The stages of a reservation that has been added before follow one another. -/
theorem isChain_stages (h : d.queue.Recorded orders) (hid : id ∈ orders.map Prod.fst)
    {l : List Act} (hk : orders.length + l.countP Act.isEnqueue < 2 ^ 64) :
    (d.stages id l).IsChain (Reservation.Follows id) := by
  induction l generalizing d orders with
  | nil => exact .singleton _
  | cons a l ih =>
    rw [List.countP_cons] at hk
    have hturn := turns_of_mem h hid (a := a) (by omega)
    have hrest := ih (h.act a (by omega)) (List.map_append ▸ List.mem_append_left _ hid) (by
      rw [List.length_append, length_added]
      omega)
    obtain ⟨rest, heq⟩ := (d.act a).exists_stages_eq_cons id l
    rw [stages, heq]
    rw [heq] at hrest
    exact .cons_cons ⟨a, hturn⟩ hrest

/-- A reservation lives its life from the time it is added. -/
theorem isCourse_stages (h : d.queue.Recorded orders) (owner : Party) (label : Label.Expr)
    {l : List Act} (hk : orders.length + 1 + l.countP Act.isEnqueue < 2 ^ 64) :
    ∃ n, Reservation.IsCourse n ((d.enqueue owner label).2.stages (d.enqueue owner label).1 l) := by
  have hadded : (d.enqueue owner label).2.queue.Recorded _ := h.enqueue (by omega) owner label
  have hchain : ((d.enqueue owner label).2.stages ⟨d.queue.next⟩ l).IsChain
      (Reservation.Follows ⟨d.queue.next⟩) :=
    isChain_stages hadded (by simp) (by rwa [List.length_append])
  obtain ⟨rest, heq⟩ := (d.enqueue owner label).2.exists_stages_eq_cons ⟨d.queue.next⟩ l
  have hwaits : (d.enqueue owner label).2.queue.stage? ⟨d.queue.next⟩ = some .pending :=
    (d.queue.stage?_enqueue owner label _).trans (if_pos rfl)
  rw [heq, hwaits] at hchain
  obtain ⟨n, hn⟩ := Reservation.exists_isCourse hchain
  refine ⟨n, ?_⟩
  change Reservation.IsCourse n ((d.enqueue owner label).2.stages ⟨d.queue.next⟩ l)
  rwa [heq, hwaits]

/-- **The life of every reservation.** Let fewer than 2 ^ 64 reservations be added by acts of any
kind.

* Each gets a larger number than all before it.
* From then on it waits, then it runs on one node, then it has run there, and then it is forgotten,
  in this order and with nothing left out, as far as it comes.
* It is bound by cycles only, it ends by its own end only, and it is forgotten by pruning only,
  after its end.
* Its owner and its label expression are those it was added with.
* Those that wait are listed in the order in which they were added. -/
theorem lifecycle (repository : Option String) (files : FileTree) (l : List Act)
    (hk : l.countP Act.isEnqueue < 2 ^ 64) :
    let d := new repository files
    (d.orders l).Pairwise (fun x y => x.1.value < y.1.value) ∧
    (∀ before owner label later, l = before ++ .enqueue owner label :: later →
      let d' := d.acts before
      ∃ n, Reservation.IsCourse n
        ((d'.enqueue owner label).2.stages (d'.enqueue owner label).1 later)) ∧
    (∀ before a later, l = before ++ a :: later → ∀ x ∈ d.orders before,
      a.Turns x.1 ((d.acts before).queue.stage? x.1) (((d.acts before).act a).queue.stage? x.1)) ∧
    (∀ x ∈ d.orders l, ∀ r, (d.acts l).queue.entries.find? x.1 = some r →
      r.owner = x.2.owner ∧ r.label = x.2.label) ∧
    (d.acts l).queue.pending =
      (d.orders l).filter fun x => (d.acts l).queue.stage? x.1 = some .pending := by
  intro d
  have hempty : d.queue.Recorded [] := .empty
  -- What has been added is recorded at every time, in particular in the end.
  have hall : ∀ before, before.countP Act.isEnqueue < 2 ^ 64 →
      (d.acts before).queue.Recorded (d.orders before) :=
    fun before hb => hempty.acts (by rwa [List.length_nil, Nat.zero_add])
  have hend := hall l hk
  refine ⟨hend.ascending, ?_, ?_, fun x hx r hr => ?_, hend.pending_eq⟩
  · rintro before owner label later rfl
    rw [List.countP_append, List.countP_cons_of_pos (by rfl)] at hk
    refine isCourse_stages (hall before (by omega)) owner label ?_
    rw [length_orders]
    omega
  · rintro before a later rfl x hx
    rw [List.countP_append, List.countP_cons] at hk
    refine turns_of_mem (hall before (by omega)) (List.mem_map_of_mem hx) ?_
    rw [length_orders]
    omega
  · have hsame := hend.eq_of_fst_eq (hend.mem x.1 r hr) hx rfl
    rw [← hsame]
    exact ⟨rfl, rfl⟩

/-- The first of two reservations runs, ends and is forgotten while the second waits. -/
def life : List Act := lending ++ [.complete ⟨1⟩, .prune]

theorem pending_after_first_ended :
    ((new none .empty).acts life).queue.pending =
      [(⟨2⟩, ⟨Sample.party, .atom "a", .pending⟩)] := by
  have hlist := (lifecycle none .empty life (by decide)).2.2.2.2
  rw [hlist]
  decide

end Deployment

end NodeLending
