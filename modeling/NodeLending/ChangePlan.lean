import NodeLending.Keyed

/-!
# Change plans

A change plan compares what is wanted with what has been applied and says, key by key, what has to
be done to make them agree. An applied entry may carry more than its definition; only the
definition is compared.

## Main definitions

* `ChangePlan`: the keys by what has to be done.
* `ChangePlan.between`: the plan for two collections.
* `ChangePlan.isNoop`: nothing has to be done.

## Main results

* `ChangePlan.mem_create`, `ChangePlan.mem_update`, `ChangePlan.mem_unchanged`,
  `ChangePlan.mem_remove`: the plan for two collections, key by key.
-/

namespace NodeLending

/-- The keys of two collections by what has to be done. -/
structure ChangePlan (κ : Type) where
  /-- The keys that are wanted only. -/
  create : List κ
  /-- The keys with another definition than the one applied. -/
  update : List κ
  /-- The keys with the definition that has been applied. -/
  unchanged : List κ
  /-- The keys that are applied only. -/
  remove : List κ
  deriving DecidableEq, Repr

namespace ChangePlan

variable {κ δ α : Type} [Ord κ]

/-- Whether nothing has to be done. -/
def isNoop (p : ChangePlan κ) : Bool :=
  p.create.isEmpty && p.update.isEmpty && p.remove.isEmpty

/-- The plan that makes the definitions in `applied` agree with `desired`. -/
def between [DecidableEq δ] (desired : Keyed κ δ) (applied : Keyed κ α) (definition : α → δ) :
    ChangePlan κ where
  create := (desired.filter fun k _ => !applied.contains k).keys
  update := (desired.filter fun k d =>
    (applied.find? k).any fun a => definition a ≠ d).keys
  unchanged := (desired.filter fun k d =>
    (applied.find? k).any fun a => definition a = d).keys
  remove := (applied.filter fun k _ => !desired.contains k).keys

/-! ### The plan, key by key -/

section LawfulEq

variable [DecidableEq δ] [Std.LawfulEqOrd κ] {desired : Keyed κ δ} {applied : Keyed κ α}
  {definition : α → δ} {k : κ}

/-- The keys that are wanted only. -/
theorem mem_create : k ∈ (between desired applied definition).create ↔
    ∃ d, desired.find? k = some d ∧ applied.find? k = none := by
  simp [between, Keyed.mem_keys_filter, Keyed.contains]

/-- The keys with another definition than the one applied. -/
theorem mem_update : k ∈ (between desired applied definition).update ↔
    ∃ d a, desired.find? k = some d ∧ applied.find? k = some a ∧ definition a ≠ d := by
  simp [between, Keyed.mem_keys_filter, Option.any_eq_true]

/-- The keys with the definition that has been applied. -/
theorem mem_unchanged : k ∈ (between desired applied definition).unchanged ↔
    ∃ d a, desired.find? k = some d ∧ applied.find? k = some a ∧ definition a = d := by
  simp [between, Keyed.mem_keys_filter, Option.any_eq_true]

/-- The keys that are applied only. -/
theorem mem_remove : k ∈ (between desired applied definition).remove ↔
    ∃ a, applied.find? k = some a ∧ desired.find? k = none := by
  simp [between, Keyed.mem_keys_filter, Keyed.contains]

end LawfulEq

end ChangePlan

end NodeLending
