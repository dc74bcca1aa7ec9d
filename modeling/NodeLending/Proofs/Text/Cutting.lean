import Mathlib.Data.List.TakeWhile
import NodeLending.Text.Split

/-!
# Cutting texts and putting them together

A text is cut at the characters of a class. What is put together from pieces without such a character
is cut into these pieces again.

## Main results

* `Text.splitAt_append_cons`: a text is cut at the first character of a class.
* `Text.splitOn_join`: pieces that were joined are found again.
-/

namespace NodeLending.Text

variable {p : Char → Bool} {cs : List Char}

theorem splitAt_of_forall (h : ∀ c ∈ cs, p c = false) : splitAt p cs = [cs] := by
  induction cs with
  | nil => rfl
  | cons c cs ih =>
    rw [splitAt, if_neg (Bool.eq_false_iff.mp (h c List.mem_cons_self)),
      ih fun d hd => h d (List.mem_cons_of_mem c hd)]

/-- A text is cut at the first character of a class. -/
theorem splitAt_append_cons (h : ∀ c ∈ cs, p c = false) {d : Char} (hd : p d = true)
    (rest : List Char) : splitAt p (cs ++ d :: rest) = cs :: splitAt p rest := by
  induction cs with
  | nil => rw [List.nil_append, splitAt, if_pos hd]
  | cons c cs ih =>
    rw [List.cons_append, splitAt, if_neg (Bool.eq_false_iff.mp (h c List.mem_cons_self)),
      ih fun e he => h e (List.mem_cons_of_mem c he)]

/-- Behind a character of the class at the end there is an empty piece. -/
theorem splitAt_concat {d : Char} (hd : p d = true) (cs : List Char) :
    splitAt p (cs ++ [d]) = splitAt p cs ++ [[]] := by
  induction cs with
  | nil => simp [splitAt, hd]
  | cons c cs ih =>
    rw [List.cons_append, splitAt, splitAt, ih]
    split
    · rfl
    · cases hpieces : splitAt p cs with
      | nil => exact absurd hpieces (splitAt_ne_nil p cs)
      | cons piece rest => rfl

theorem cutAt_of_forall (h : ∀ c ∈ cs, p c = false) : (cutAt p cs).1 = cs :=
  List.takeWhile_eq_self_iff.mpr fun c hc => by rw [h c hc]; rfl

/-- A text is cut in two in front of the first character of a class. -/
theorem cutAt_append_cons (h : ∀ c ∈ cs, p c = false) {d : Char} (hd : p d = true)
    (rest : List Char) : cutAt p (cs ++ d :: rest) = (cs, d :: rest) := by
  have hcs : ∀ c ∈ cs, (!p c) = true := fun c hc => by rw [h c hc]; rfl
  simp [cutAt, List.takeWhile_append_of_pos hcs, List.dropWhile_append_of_pos hcs, hd]

theorem cutAt_eq_nil_iff {c : Char} : (cutAt (· == c) cs).2 = [] ↔ c ∉ cs := by
  simp only [cutAt, List.dropWhile_eq_nil_iff, Bool.not_eq_true', beq_eq_false_iff_ne]
  exact ⟨fun h hc => h c hc rfl, fun h d hd heq => h (heq ▸ hd)⟩

theorem cutAt_of_notMem {c : Char} (h : c ∉ cs) : cutAt (· == c) cs = (cs, []) :=
  Prod.ext (cutAt_of_forall fun _ hd => beq_false_of_ne fun heq => h (heq ▸ hd))
    (cutAt_eq_nil_iff.mpr h)

/-- Pieces that were joined by a character which none of them holds are found again. -/
theorem splitOn_join {c : Char} {pieces : List String} (hne : pieces ≠ [])
    (h : ∀ s ∈ pieces, c ∉ s.toList) :
    splitOn c (join (String.singleton c) pieces) = pieces := by
  have hplain : ∀ s ∈ pieces, ∀ d ∈ s.toList, (d == c) = false :=
    fun s hs d hd => beq_false_of_ne fun heq => h s hs (heq ▸ hd)
  clear h
  induction pieces with
  | nil => exact absurd rfl hne
  | cons s rest ih =>
    have hs := hplain s List.mem_cons_self
    cases rest with
    | nil =>
      rw [splitOn, join, String.intercalate_singleton, splitAt_of_forall hs, List.map_singleton,
        String.ofList_toList]
    | cons s' rest =>
      have hlater := ih (List.cons_ne_nil _ _) fun x hx => hplain x (List.mem_cons_of_mem s hx)
      rw [splitOn, join] at hlater ⊢
      rw [String.intercalate_cons_cons, String.toList_append, String.toList_append,
        String.toList_singleton, List.append_assoc, List.singleton_append,
        splitAt_append_cons hs (beq_self_eq_true c), List.map_cons, String.ofList_toList, hlater]

end NodeLending.Text
