/-!
# Readings that may go wrong

A text is read step by step, and the first step that goes wrong ends the reading with its error. What
a reading comes to is said here of its steps.

## Main results

* `bind_eq_ok_iff`, `bind_eq_error_iff`, `map_eq_ok_iff`, `map_eq_error_iff`, `mapError_eq_ok_iff`:
  two steps.
* `exists_of_foldlM_error`, `exists_of_foldlM_ok`: one step for each element of a list.
-/

namespace NodeLending

variable {ε α β : Type}

theorem bind_eq_ok_iff {x : Except ε α} {f : α → Except ε β} {b : β} :
    x >>= f = .ok b ↔ ∃ a, x = .ok a ∧ f a = .ok b := by
  cases x with
  | error e => exact iff_of_false nofun nofun
  | ok a => exact ⟨fun h => ⟨a, rfl, h⟩, fun ⟨_, h, h'⟩ => by cases h; exact h'⟩

theorem bind_eq_error_iff {x : Except ε α} {f : α → Except ε β} {e : ε} :
    x >>= f = .error e ↔ x = .error e ∨ ∃ a, x = .ok a ∧ f a = .error e := by
  cases x with
  | error e' =>
    change Except.error e' = Except.error e ↔ _
    simp
  | ok a =>
    change f a = Except.error e ↔ _
    simp

theorem map_eq_ok_iff {x : Except ε α} {f : α → β} {b : β} :
    x.map f = .ok b ↔ ∃ a, x = .ok a ∧ f a = b := by
  cases x with
  | error e => exact iff_of_false nofun nofun
  | ok a => exact ⟨fun h => ⟨a, rfl, Except.ok.inj h⟩, fun ⟨_, h, h'⟩ => by cases h; exact h' ▸ rfl⟩

theorem map_eq_error_iff {x : Except ε α} {f : α → β} {e : ε} :
    x.map f = .error e ↔ x = .error e := by
  cases x with
  | error e' => exact ⟨fun h => by cases h; rfl, fun h => by cases h; rfl⟩
  | ok a => exact iff_of_false nofun nofun

theorem mapError_eq_ok_iff {ε' : Type} {x : Except ε α} {f : ε → ε'} {a : α} :
    x.mapError f = .ok a ↔ x = .ok a := by
  cases x with
  | error e => exact iff_of_false nofun nofun
  | ok a' => exact ⟨fun h => by cases h; rfl, fun h => by cases h; rfl⟩

variable {f : β → α → Except ε β}

/-- A fold that goes wrong does so at some element, after all those before it. -/
theorem exists_of_foldlM_error {l : List α} {b : β} {e : ε} (h : l.foldlM f b = .error e) :
    ∃ before x after b', l = before ++ x :: after ∧ before.foldlM f b = .ok b' ∧
      f b' x = .error e := by
  induction l generalizing b with
  | nil => cases h
  | cons y rest ih =>
    rw [List.foldlM_cons, bind_eq_error_iff] at h
    rcases h with h | ⟨b₁, hy, h⟩
    · exact ⟨[], y, rest, b, rfl, rfl, h⟩
    · obtain ⟨before, x, after, b', hl, hbefore, hx⟩ := ih h
      refine ⟨y :: before, x, after, b', by rw [hl]; rfl, ?_, hx⟩
      exact bind_eq_ok_iff.mpr ⟨b₁, hy, hbefore⟩

/-- A fold that does not go wrong takes every element after those before it. -/
theorem exists_of_foldlM_ok {before after : List α} {x : α} {b c : β}
    (h : (before ++ x :: after).foldlM f b = .ok c) :
    ∃ b' b'', before.foldlM f b = .ok b' ∧ f b' x = .ok b'' := by
  rw [List.foldlM_append, bind_eq_ok_iff] at h
  obtain ⟨b', hbefore, h⟩ := h
  rw [List.foldlM_cons, bind_eq_ok_iff] at h
  obtain ⟨b'', hx, -⟩ := h
  exact ⟨b', b'', hbefore, hx⟩

end NodeLending
