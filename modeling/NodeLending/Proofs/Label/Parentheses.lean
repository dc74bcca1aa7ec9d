import NodeLending.Label.Parse

/-!
# Parentheses that pair up

Before a list of tokens is read its parentheses are counted. The count is right for as long as no
more parentheses are open than the counter can hold. Beyond that an opening parenthesis is not
counted, and its closing one is missing later on. So parentheses that pair up pass the check exactly
when they are never too many at once.

Both conditions are about the beginnings of a list. They go through the ways in which lists of
tokens are put together: one list behind the other, and a list in parentheses.

## Main definitions

* `Label.Paired`: the parentheses pair up.
* `Label.Nests`: never more parentheses are open than a given number.

## Main results

* `Label.Paired.append`, `Label.Paired.enclose`, `Label.nests_append_iff`,
  `Label.nests_succ_enclose_iff`: lists that are put together.
* `Label.balanced_iff`, `Label.Paired.balanced_iff`: what the counter finds out.
-/

namespace NodeLending.Label

/-- The parentheses pair up: none is closed that has not been opened before, and none is left
open. -/
structure Paired (ts : List Token) : Prop where
  /-- None is closed that has not been opened before. -/
  opened : ∀ us, us <+: ts → us.count .closing ≤ us.count .opening
  /-- None is left open. -/
  closed : ts.count .opening = ts.count .closing

/-- Never more than `n` parentheses are open. -/
def Nests (n : Nat) (ts : List Token) : Prop :=
  ∀ us, us <+: ts → us.count .opening ≤ us.count .closing + n

variable {ts vs : List Token} {t : Token} {n m depth : Nat}

/-! ### Beginnings -/

/-- A condition on all beginnings of a list that is not empty. -/
theorem forall_prefix_cons {P : List Token → Prop} :
    (∀ us, us <+: t :: ts → P us) ↔ P [] ∧ ∀ us, us <+: ts → P (t :: us) := by
  simp only [List.prefix_cons_iff]
  constructor
  · exact fun h => ⟨h [] (.inl rfl), fun us hus => h _ (.inr ⟨us, rfl, hus⟩)⟩
  · rintro ⟨hnil, hcons⟩ us (rfl | ⟨us, rfl, hus⟩)
    · exact hnil
    · exact hcons us hus

/-- A condition on all beginnings of two lists that stand one behind the other. -/
theorem forall_prefix_append {P : List Token → Prop} :
    (∀ us, us <+: ts ++ vs → P us) ↔
      (∀ us, us <+: ts → P us) ∧ ∀ us, us <+: vs → P (ts ++ us) := by
  induction ts generalizing P with
  | nil =>
    have hnil : ∀ us, us <+: [] → us = ([] : List Token) := fun us => List.prefix_nil.mp
    exact ⟨fun h => ⟨fun us hus => hnil us hus ▸ h [] List.nil_prefix, h⟩, fun h => h.2⟩
  | cons t ts ih =>
    rw [List.cons_append, forall_prefix_cons, forall_prefix_cons, ih]
    exact and_assoc.symm

/-! ### Lists that are put together -/

theorem paired_nil : Paired [] where
  opened us hus := by simp [List.prefix_nil.mp hus]
  closed := rfl

/-- A token that is no parenthesis may stand in front. -/
theorem Paired.cons (h : Paired ts) (hopen : t ≠ .opening) (hclose : t ≠ .closing) :
    Paired (t :: ts) where
  opened := by
    refine forall_prefix_cons.mpr ⟨Nat.le_refl _, fun us hus => ?_⟩
    rw [List.count_cons_of_ne hopen, List.count_cons_of_ne hclose]
    exact h.opened us hus
  closed := by rw [List.count_cons_of_ne hopen, List.count_cons_of_ne hclose, h.closed]

theorem Paired.append (h : Paired ts) (h' : Paired vs) : Paired (ts ++ vs) where
  opened := by
    refine forall_prefix_append.mpr ⟨h.opened, fun us hus => ?_⟩
    rw [List.count_append, List.count_append, h.closed]
    exact Nat.add_le_add_left (h'.opened us hus) _
  closed := by rw [List.count_append, List.count_append, h.closed, h'.closed]

theorem Paired.flatMap {α : Type} {l : List α} {f : α → List Token} (h : ∀ a ∈ l, Paired (f a)) :
    Paired (l.flatMap f) := by
  induction l with
  | nil => exact paired_nil
  | cons a l ih =>
    obtain ⟨ha, hl⟩ := List.forall_mem_cons.mp h
    exact ha.append (ih hl)

/-- Parentheses may be put around a list. -/
theorem Paired.enclose (h : Paired ts) : Paired (.opening :: (ts ++ [.closing])) where
  opened := by
    refine forall_prefix_cons.mpr ⟨Nat.le_refl _, forall_prefix_append.mpr ⟨fun us hus => ?_, ?_⟩⟩
    · have := h.opened us hus
      simpa using Nat.le_succ_of_le this
    · simp [forall_prefix_cons, h.closed]
  closed := by simp [h.closed]

theorem Nests.mono (h : Nests n ts) (hnm : n ≤ m) : Nests m ts := fun us hus =>
  Nat.le_trans (h us hus) (Nat.add_le_add_left hnm _)

theorem nests_nil : Nests n [] := fun us hus => by simp [List.prefix_nil.mp hus]

/-- Behind parentheses that pair up none is open. -/
theorem nests_append_iff (h : ts.count .opening = ts.count .closing) :
    Nests n (ts ++ vs) ↔ Nests n ts ∧ Nests n vs := by
  simp only [Nests, forall_prefix_append, List.count_append, h, Nat.add_assoc,
    Nat.add_le_add_iff_left]

theorem nests_cons_iff (hopen : t ≠ .opening) (hclose : t ≠ .closing) :
    Nests n (t :: ts) ↔ Nests n ts := by
  rw [← List.singleton_append, nests_append_iff (paired_nil.cons hopen hclose).closed]
  refine and_iff_right ?_
  simp [Nests, forall_prefix_cons, hopen]

theorem nests_atom (n : Nat) (a : String) : Nests n [.atom a] :=
  (nests_cons_iff (t := .atom a) nofun nofun).mpr nests_nil

theorem Nests.flatMap {α : Type} {l : List α} {f : α → List Token}
    (hpaired : ∀ a ∈ l, Paired (f a)) (h : Nests n (l.flatMap f)) : ∀ a ∈ l, Nests n (f a) := by
  induction l with
  | nil => exact List.forall_mem_nil _
  | cons a l ih =>
    obtain ⟨ha, hl⟩ := List.forall_mem_cons.mp hpaired
    obtain ⟨hfirst, hrest⟩ := (nests_append_iff ha.closed).mp h
    exact List.forall_mem_cons.mpr ⟨hfirst, ih hl hrest⟩

/-- A list in parentheses nests by one more. -/
theorem nests_succ_enclose_iff (h : Paired ts) :
    Nests (n + 1) (.opening :: (ts ++ [.closing])) ↔ Nests n ts := by
  have hbehind : ∀ us, us <+: [.closing] → (Token.opening :: (ts ++ us)).count .opening ≤
      (Token.opening :: (ts ++ us)).count .closing + (n + 1) := by
    simp only [forall_prefix_cons, List.prefix_nil, forall_eq]
    simp [h.closed, Nat.add_assoc]
  rw [Nests, forall_prefix_cons, forall_prefix_append]
  refine (and_iff_right (Nat.zero_le _)).trans ((and_iff_left hbehind).trans ?_)
  simp [Nests, ← Nat.add_assoc]

theorem not_nests_zero_enclose : ¬Nests 0 (.opening :: ts) := fun h => by
  have hfirst := h [.opening] (List.prefix_append [.opening] ts)
  simp at hfirst

/-! ### The counter -/

theorem count_closing_cons_opening :
    (Token.opening :: ts).count .closing = ts.count .closing :=
  List.count_cons_of_ne (by decide)

theorem count_opening_cons_closing :
    (Token.closing :: ts).count .opening = ts.count .opening :=
  List.count_cons_of_ne (by decide)

/-- The counter is right when never too many parentheses are open. -/
theorem balancedFrom_iff
    (h : ∀ us, us <+: ts → depth + us.count .opening ≤ us.count .closing + maxDepth) :
    balancedFrom depth ts = true ↔
      (∀ us, us <+: ts → us.count .closing ≤ depth + us.count .opening) ∧
        depth + ts.count .opening = ts.count .closing := by
  fun_induction balancedFrom depth ts with
  | case1 depth => simp
  | case2 depth ts ih =>
    have hroom : depth + 1 ≤ maxDepth := by
      simpa using h [.opening] (List.prefix_append [.opening] ts)
    have hrest : ∀ us, us <+: ts →
        depth + 1 + us.count .opening ≤ us.count .closing + maxDepth := by
      intro us hus
      have hbehind := (forall_prefix_cons.mp h).2 us hus
      rw [List.count_cons_self, count_closing_cons_opening] at hbehind
      omega
    rw [Nat.min_eq_left hroom] at ih ⊢
    rw [ih hrest, forall_prefix_cons]
    simp [Nat.add_assoc, Nat.add_comm 1]
  | case3 ts =>
    -- The first parenthesis of all has not been opened.
    refine iff_of_false Bool.false_ne_true fun h => ?_
    have hfirst := h.1 [.closing] (List.prefix_append [.closing] ts)
    simp at hfirst
  | case4 ts depth ih =>
    have hrest : ∀ us, us <+: ts → depth + us.count .opening ≤ us.count .closing + maxDepth := by
      intro us hus
      have hbehind := (forall_prefix_cons.mp h).2 us hus
      rw [List.count_cons_self, count_opening_cons_closing] at hbehind
      omega
    rw [ih hrest, forall_prefix_cons]
    simp [Nat.add_right_comm depth 1]
  | case5 depth t ts hopen hclose ih =>
    have hrest := (forall_prefix_cons.mp h).2
    simp only [List.count_cons_of_ne hopen, List.count_cons_of_ne hclose] at hrest
    rw [ih hrest, forall_prefix_cons]
    simp [List.count_cons_of_ne hopen, List.count_cons_of_ne hclose]

/-- No more is closed than has been counted. -/
theorem count_closing_le_of_balancedFrom (h : balancedFrom depth ts = true) :
    ts.count .closing ≤ depth + ts.count .opening := by
  fun_induction balancedFrom depth ts with
  | case1 => exact Nat.zero_le _
  | case2 depth ts ih =>
    have hrest := ih h
    rw [List.count_cons_self, count_closing_cons_opening]
    omega
  | case3 => cases h
  | case4 ts depth ih =>
    have hrest := ih h
    rw [List.count_cons_self, count_opening_cons_closing]
    omega
  | case5 depth t ts hopen hclose ih =>
    rw [List.count_cons_of_ne hopen, List.count_cons_of_ne hclose]
    exact ih h

/-- When all that is open is closed in the end, the counter has missed none. -/
theorem nests_of_balancedFrom (h : balancedFrom depth ts = true) (hdepth : depth ≤ maxDepth)
    (hclosed : depth + ts.count .opening = ts.count .closing) :
    ∀ us, us <+: ts → depth + us.count .opening ≤ us.count .closing + maxDepth := by
  fun_induction balancedFrom depth ts with
  | case1 => simpa using hdepth
  | case2 depth ts ih =>
    rw [List.count_cons_self, count_closing_cons_opening] at hclosed
    have hroom : depth + 1 ≤ maxDepth := by
      -- At its largest value the counter would miss this parenthesis.
      refine Nat.le_of_not_lt fun hfull => ?_
      have hend := count_closing_le_of_balancedFrom h
      omega
    rw [Nat.min_eq_left hroom] at ih h
    refine forall_prefix_cons.mpr ⟨by simpa using hdepth, fun us hus => ?_⟩
    have hrest := ih h hroom (by omega) us hus
    rw [List.count_cons_self, count_closing_cons_opening]
    omega
  | case3 => cases h
  | case4 ts depth ih =>
    rw [List.count_cons_self, count_opening_cons_closing] at hclosed
    have hroom : depth ≤ maxDepth := Nat.le_of_succ_le hdepth
    refine forall_prefix_cons.mpr ⟨by simpa using hdepth, fun us hus => ?_⟩
    have hrest := ih h hroom (by omega) us hus
    rw [List.count_cons_self, count_opening_cons_closing]
    omega
  | case5 depth t ts hopen hclose ih =>
    rw [List.count_cons_of_ne hopen, List.count_cons_of_ne hclose] at hclosed
    refine forall_prefix_cons.mpr ⟨by simpa using hdepth, fun us hus => ?_⟩
    rw [List.count_cons_of_ne hopen, List.count_cons_of_ne hclose]
    exact ih h hdepth hclosed us hus

/-- The check of parentheses accepts those that pair up when they are never too many. -/
theorem balanced_iff (h : Nests maxDepth ts) : balanced ts = true ↔ Paired ts := by
  have hcounted : ∀ us, us <+: ts → 0 + us.count .opening ≤ us.count .closing + maxDepth := by
    simpa only [Nat.zero_add, Nests] using h
  rw [balanced, balancedFrom_iff hcounted]
  simp only [Nat.zero_add]
  exact ⟨fun h => ⟨h.1, h.2⟩, fun h => ⟨h.opened, h.closed⟩⟩

/-- Parentheses that pair up pass the check only when they are never too many. -/
theorem Paired.balanced_iff (h : Paired ts) : balanced ts = true ↔ Nests maxDepth ts := by
  refine ⟨fun hb => ?_, fun hn => (Label.balanced_iff hn).mpr h⟩
  have hcounted := nests_of_balancedFrom hb (Nat.zero_le maxDepth) (by simpa using h.closed)
  simpa only [Nat.zero_add, Nests] using hcounted

end NodeLending.Label
