import Mathlib.Algebra.BigOperators.Group.List.Basic
import Mathlib.Algebra.GroupWithZero.Nat
import NodeLending.Pass.Outcome

/-!
# Counting reports

Reports are added count by count, so the report of a pass is the sum of those of its changes, and
each count of it is a sum of counts.

## Main definitions

* `PassReport.countDeferred`, `PassReport.countPending`: two of the counts, with their additivity.
* `PassReport.still`: the report of nodes that stay as they are.

## Main results

* `PassReport.sum_map`: a sum of reports, count by count.
* `PassReport.sum_still`: a sum of reports of nodes that stay as they are.
-/

namespace NodeLending

namespace PassReport

instance : Zero PassReport := ⟨{}⟩

theorem add_def (a b : PassReport) : a + b = a.add b := rfl

theorem zero_def : (0 : PassReport) = {} := rfl

instance : AddMonoid PassReport where
  add_assoc a b c := by simp [add_def, add, Nat.add_assoc]
  zero_add a := by simp [add_def, add, zero_def]
  add_zero a := by simp [add_def, add, zero_def]
  nsmul := nsmulRec

@[simp] theorem deferred_add (a b : PassReport) : (a + b).deferred = a.deferred + b.deferred := rfl

@[simp] theorem pendingRemoval_add (a b : PassReport) :
    (a + b).pendingRemoval = a.pendingRemoval + b.pendingRemoval := rfl

/-- The count of the changes that are left to a later pass. -/
def countDeferred : PassReport →+ Nat := ⟨⟨deferred, rfl⟩, deferred_add⟩

/-- The count of the nodes that are not declared and still there. -/
def countPending : PassReport →+ Nat := ⟨⟨pendingRemoval, rfl⟩, pendingRemoval_add⟩

/-- The report of nodes that stay as they are: with the definition that is declared, with an earlier
one because they are busy, or without being declared. -/
def still (unchanged deferred pendingRemoval : Nat) : PassReport :=
  { unchanged, deferred, pendingRemoval }

/-- Reports are added count by count. -/
theorem sum_map {ι : Type} (l : List ι) (f : ι → PassReport) : (l.map f).sum =
    { created := (l.map fun x => (f x).created).sum
      updated := (l.map fun x => (f x).updated).sum
      unchanged := (l.map fun x => (f x).unchanged).sum
      removed := (l.map fun x => (f x).removed).sum
      deferred := (l.map fun x => (f x).deferred).sum
      pendingRemoval := (l.map fun x => (f x).pendingRemoval).sum
      reactivated := (l.map fun x => (f x).reactivated).sum
      adopted := (l.map fun x => (f x).adopted).sum } := by
  induction l with
  | nil => rfl
  | cons x l ih =>
    simp only [List.map_cons, List.sum_cons, ih]
    rfl

theorem sum_still {ι : Type} (l : List ι) (u f p : ι → Nat) :
    (l.map fun x => still (u x) (f x) (p x)).sum =
      still (l.map u).sum (l.map f).sum (l.map p).sum := by
  rw [sum_map]
  simp [still]

end PassReport

end NodeLending
