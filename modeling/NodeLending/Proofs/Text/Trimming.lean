import Mathlib.Data.List.DropRight
import NodeLending.Text.Blank

/-!
# Trimming texts

What is trimmed is the blanks at the two ends. More blanks there change nothing, and a character that
is not blank keeps what stands on its other side.

## Main results

* `Text.trimChars_padded`: blanks at the ends do not count.
* `Text.trimChars_append_cons`: on each side of a character that is not blank, one end is trimmed.
-/

namespace NodeLending.Text

variable {cs lead tail front back : List Char} {c : Char}

theorem trimLeft_eq_nil_iff : trimLeft cs = [] ↔ ∀ c ∈ cs, isBlank c = true :=
  List.dropWhile_eq_nil_iff

theorem trimLeft_append_blank (h : ∀ c ∈ lead, isBlank c = true) (cs : List Char) :
    trimLeft (lead ++ cs) = trimLeft cs :=
  List.dropWhile_append_of_pos h

theorem trimRight_append_blank (cs : List Char) (h : ∀ c ∈ tail, isBlank c = true) :
    trimRight (cs ++ tail) = trimRight cs := by
  rw [trimRight, List.reverse_append, List.dropWhile_append_of_pos fun c hc =>
    h c (List.mem_reverse.mp hc), trimRight]

/-- A text in front of a blank one is trimmed as if it were alone. -/
theorem trimLeft_blank_append (h : ∀ c ∈ tail, isBlank c = true) (cs : List Char) :
    trimLeft (cs ++ tail) = if trimLeft cs = [] then [] else trimLeft cs ++ tail := by
  rw [trimLeft, List.dropWhile_append, ← trimLeft, ← trimLeft, trimLeft_eq_nil_iff.mpr h]
  simp only [List.isEmpty_iff]

/-- Blanks at the ends do not count. -/
theorem trimChars_padded (hlead : ∀ c ∈ lead, isBlank c = true)
    (htail : ∀ c ∈ tail, isBlank c = true) (cs : List Char) :
    trimChars (lead ++ cs ++ tail) = trimChars cs := by
  rw [trimChars, trimChars, List.append_assoc, trimLeft_append_blank hlead,
    trimLeft_blank_append htail]
  split
  next hnil => rw [hnil]
  next => exact trimRight_append_blank _ htail

theorem trimChars_of_blank (h : ∀ c ∈ cs, isBlank c = true) : trimChars cs = [] := by
  rw [trimChars, trimLeft_eq_nil_iff.mpr h]
  rfl

theorem trimLeft_of_forall (h : ∀ c ∈ cs, isBlank c = false) : trimLeft cs = cs := by
  cases cs with
  | nil => rfl
  | cons c cs => exact trimLeft_cons_of_not_isBlank (h c List.mem_cons_self)

/-- A text without blanks is left as it is. -/
theorem trimChars_of_forall (h : ∀ c ∈ cs, isBlank c = false) : trimChars cs = cs := by
  have hreverse : trimLeft cs.reverse = cs.reverse :=
    trimLeft_of_forall fun c hc => h c (List.mem_reverse.mp hc)
  rw [trimChars, trimLeft_of_forall h, trimRight, ← trimLeft, hreverse, List.reverse_reverse]

theorem trimChars_trimLeft (cs : List Char) : trimChars (trimLeft cs) = trimChars cs := by
  rw [trimChars, trimLeft, trimLeft, List.dropWhile_idempotent]
  rfl

theorem trimChars_trimRight (cs : List Char) : trimChars (trimRight cs) = trimChars cs := by
  have hcs : trimRight cs ++ (cs.reverse.takeWhile isBlank).reverse = cs := by
    rw [trimRight, ← List.reverse_append, List.takeWhile_append_dropWhile, List.reverse_reverse]
  have hblank : ∀ c ∈ (cs.reverse.takeWhile isBlank).reverse, isBlank c = true :=
    fun c hc => List.mem_takeWhile_imp (List.mem_reverse.mp hc)
  have hpadded := trimChars_padded (List.forall_mem_nil _) hblank (trimRight cs)
  rwa [List.nil_append, hcs, eq_comm] at hpadded

/-- On each side of a character that is not blank, one end is trimmed. -/
theorem trimChars_append_cons (hc : isBlank c = false) (front back : List Char) :
    trimChars (front ++ c :: back) = trimLeft front ++ c :: trimRight back := by
  have hstays (cs rest : List Char) :
      (cs ++ c :: rest).dropWhile isBlank = cs.dropWhile isBlank ++ c :: rest := by
    rw [List.dropWhile_append, List.dropWhile_cons_of_neg (by simp [hc])]
    split
    next hnil => rw [List.isEmpty_iff.mp hnil, List.nil_append]
    next => rfl
  rw [trimChars, trimLeft, hstays, ← trimLeft, trimRight, List.reverse_append, List.reverse_cons,
    List.append_assoc, List.singleton_append, hstays, List.reverse_append, List.reverse_cons,
    List.reverse_reverse, List.append_assoc, List.singleton_append, ← trimRight]

/-- A trimmed text loses nothing in front. -/
theorem trimLeft_of_trimChars (h : trimChars cs = cs) : trimLeft cs = cs := by
  have hsuffix : trimLeft cs <:+ cs := List.dropWhile_suffix isBlank
  have hkept : (trimChars cs).length ≤ (trimLeft cs).length :=
    (List.rdropWhile_prefix isBlank (trimLeft cs)).length_le
  rw [h] at hkept
  exact hsuffix.eq_of_length (Nat.le_antisymm hsuffix.length_le hkept)

end NodeLending.Text
