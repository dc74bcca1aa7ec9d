import Mathlib.Algebra.Group.Nat.Defs
import Mathlib.Order.Basic
import NodeLending.Reservation.Queue

/-!
# The stages of reservations

What the operations of a queue do to the stage of a reservation, and how reservations are numbered.
Numbers have 64 bits and are given out in turn, so the next number is a new one as long as fewer
than 2 ^ 64 reservations have been made.

## Main definitions

* `Queue.Numbered`: the queue has given out the numbers up to a bound.

## Main results

* `Queue.stage?_enqueue`, `Queue.stage?_setStage`, `Queue.stage?_prune`.
* `Queue.Numbered.stage?_next`: the next number is a new one.
-/

namespace NodeLending

open Reservation (Stage)

namespace Queue

variable {q : Queue} {id j : ReservationId}

/-! ### Lookups after an operation -/

@[simp] theorem stage?_empty (id : ReservationId) : Queue.empty.stage? id = none := rfl

theorem find?_setStage (q : Queue) (id j : ReservationId) (stage : Stage) :
    (q.setStage id stage).entries.find? j =
      if j = id then (q.entries.find? id).map fun r => { r with stage }
      else q.entries.find? j := by
  rw [setStage]
  split
  · next r h => rw [Keyed.find?_insert, h, Option.map_some]
  · next h =>
    split
    · next heq => rw [heq, h, Option.map_none]
    · rfl

/-- Only the reservation that is put at a stage changes. -/
theorem stage?_setStage (q : Queue) (id j : ReservationId) (stage : Stage) :
    (q.setStage id stage).stage? j =
      if j = id then (q.stage? id).map fun _ => stage else q.stage? j := by
  rw [stage?, find?_setStage]
  split
  · rw [stage?, Option.map_map, Option.map_map]
    rfl
  · rfl

theorem next_setStage (q : Queue) (id : ReservationId) (stage : Stage) :
    (q.setStage id stage).next = q.next := by
  rw [setStage]
  split <;> rfl

/-- New demand waits under the next number. -/
theorem stage?_enqueue (q : Queue) (owner : Party) (label : Label.Expr) (j : ReservationId) :
    (q.enqueue owner label).2.stage? j = if j = ⟨q.next⟩ then some .pending else q.stage? j := by
  rw [stage?, enqueue, Keyed.find?_insert]
  split <;> rfl

/-- What waits or runs is kept by pruning, and nothing else is. -/
theorem stage?_prune (q : Queue) (j : ReservationId) :
    q.prune.stage? j = (q.stage? j).filter Stage.isLive := by
  rw [stage?, prune, Keyed.find?_filter, stage?]
  cases q.entries.find? j with
  | none => rfl
  | some r => cases h : r.stage.isLive <;> simp [Option.filter, h]

/-! ### Waiting reservations -/

theorem mem_pending {r : Reservation} :
    (id, r) ∈ q.pending ↔ q.entries.find? id = some r ∧ r.stage = .pending := by
  rw [pending, List.mem_filter, Keyed.mem_entries_iff]
  refine and_congr_right fun _ => ?_
  cases r.stage <;> simp [Stage.isPending]

/-- No reservation waits twice. -/
theorem nodup_pending (q : Queue) : (q.pending.map Prod.fst).Nodup :=
  q.entries.nodup_keys.sublist (List.filter_sublist.map Prod.fst)

/-! ### Numbers -/

/-- The queue has given out the numbers up to `k`. -/
structure Numbered (q : Queue) (k : Nat) : Prop where
  /-- The next number, in 64 bits. -/
  next : q.next.toNat = (k + 1) % 2 ^ 64
  /-- All numbers that are there have been given out. -/
  le : ∀ id, (q.stage? id).isSome → id.value.toNat ≤ k

namespace Numbered

variable {k : Nat}

theorem empty : Queue.empty.Numbered 0 :=
  ⟨rfl, fun id h => absurd h (by rw [stage?_empty]; exact Bool.false_ne_true)⟩

/-- The next number is a new one. -/
theorem stage?_next (h : q.Numbered k) (hk : k + 1 < 2 ^ 64) : q.stage? ⟨q.next⟩ = none := by
  by_contra hne
  have hle := h.le ⟨q.next⟩ (Option.isSome_iff_ne_none.mpr hne)
  have hnext := h.next
  rw [Nat.mod_eq_of_lt hk] at hnext
  dsimp only at hle
  omega

/-- What neither numbers nor adds reservations keeps the numbers. -/
theorem of_stage? {q' : Queue} (h : q.Numbered k) (hnext : q'.next = q.next)
    (hstage : ∀ id, (q'.stage? id).isSome → (q.stage? id).isSome) : q'.Numbered k :=
  ⟨hnext ▸ h.next, fun id hid => h.le id (hstage id hid)⟩

theorem setStage (h : q.Numbered k) (id : ReservationId) (stage : Stage) :
    (q.setStage id stage).Numbered k := by
  refine h.of_stage? (next_setStage q id stage) fun j hj => ?_
  rw [stage?_setStage] at hj
  split at hj
  · next heq => simpa only [heq, Option.isSome_map] using hj
  · exact hj

theorem prune (h : q.Numbered k) : q.prune.Numbered k := by
  refine h.of_stage? rfl fun j hj => ?_
  rw [stage?_prune] at hj
  obtain ⟨stage, hstage⟩ := Option.isSome_iff_exists.mp hj
  exact Option.isSome_iff_exists.mpr ⟨stage, (Option.filter_eq_some_iff.mp hstage).1⟩

/-- New demand takes one number more. -/
theorem enqueue (h : q.Numbered k) (hk : k + 1 < 2 ^ 64) (owner : Party) (label : Label.Expr) :
    (q.enqueue owner label).2.Numbered (k + 1) := by
  have hnext := h.next
  rw [Nat.mod_eq_of_lt hk] at hnext
  constructor
  · change (q.next + 1).toNat = _
    rw [UInt64.toNat_add, hnext]
    rfl
  · intro id hid
    rw [stage?_enqueue] at hid
    split at hid
    · next heq =>
      subst heq
      exact Nat.le_of_eq hnext
    · exact Nat.le_succ_of_le (h.le id hid)

end Numbered

end Queue

end NodeLending
