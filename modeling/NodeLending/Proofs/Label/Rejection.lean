import NodeLending.Proofs.Label.Grammar

/-!
# Why a text is rejected

A text may be wrong in several ways at once, and one of them is reported. A sign that is not doubled
comes first, since nothing else is looked at before the text falls into tokens; then parentheses
that do not pair up; and then the first token at which the text cannot be continued to an expression
any more, whatever follows. When there is no such token the text has stopped too early.

That the reader stops at this token and no later one is due to its positions: whatever has been read
can be continued, by an atom if an operand has to follow and by the parentheses that are open.

## Main definitions

* `Label.Doubled`, `Label.Stray`: the signs that are doubled, and the first one that is not.
* `Label.Viable`: tokens that can be continued to an expression.

## Main results

* `Label.tokens_eq_error_iff`: texts that fall into no tokens.
* `Label.viable_iff`: the reader goes on for as long as there is a continuation.
* `Label.Expr.parse_eq_error_iff`: what is reported of a text that is rejected.
-/

namespace NodeLending.Label

/-! ### Signs that are not doubled -/

/-- Every `&` and `|` is doubled when the characters are read from left to right. -/
inductive Doubled : List Char → Prop
  | nil : Doubled []
  | other {c : Char} {cs : List Char} (hc : ¬(c = '&' ∨ c = '|')) (h : Doubled cs) :
      Doubled (c :: cs)
  | pair {c : Char} {cs : List Char} (hc : c = '&' ∨ c = '|') (h : Doubled cs) :
      Doubled (c :: c :: cs)

/-- The first `&` or `|` that is not doubled, when the characters are read from left to right. -/
def Stray (cs : List Char) (c : Char) : Prop :=
  ∃ before after, cs = before ++ c :: after ∧ Doubled before ∧ (c = '&' ∨ c = '|') ∧
    after.head? ≠ some c

section Signs

variable {run cs before after : List Char} {c : Char} {ts : List Token} {err : Error}

theorem Stray.other (hc : ¬(c = '&' ∨ c = '|')) {d : Char} (h : Stray cs d) :
    Stray (c :: cs) d := by
  obtain ⟨before, after, rfl, hbefore, hd⟩ := h
  exact ⟨c :: before, after, rfl, .other hc hbefore, hd⟩

theorem Stray.pair (hc : c = '&' ∨ c = '|') {d : Char} (h : Stray cs d) :
    Stray (c :: c :: cs) d := by
  obtain ⟨before, after, rfl, hbefore, hd⟩ := h
  exact ⟨c :: c :: before, after, rfl, .pair hc hbefore, hd⟩

/-- What goes wrong with the tokens of a text is the first sign that is not doubled. -/
theorem exists_stray_of_tokensFrom (h : tokensFrom run cs = .error err) :
    ∃ c, err = .strayOperator c ∧ Stray cs c := by
  fun_induction tokensFrom run cs with
  | case1 => cases h
  | case2 run cs ih =>
    obtain ⟨c, hc, hstray⟩ := ih (map_eq_error_iff.mp h)
    exact ⟨c, hc, hstray.pair (.inl rfl)⟩
  | case3 run cs ih =>
    obtain ⟨c, hc, hstray⟩ := ih (map_eq_error_iff.mp h)
    exact ⟨c, hc, hstray.pair (.inr rfl)⟩
  | case4 run c cs hand hor hoperator =>
    cases h
    refine ⟨c, rfl, [], cs, rfl, .nil, hoperator, fun hhead => ?_⟩
    obtain ⟨rest, rfl⟩ := List.head?_eq_some_iff.mp hhead
    rcases hoperator with rfl | rfl
    · exact hand rest rfl rfl
    · exact hor rest rfl rfl
  | case5 run c cs _ _ hoperator _ ih =>
    obtain ⟨d, hd, hstray⟩ := ih (map_eq_error_iff.mp h)
    exact ⟨d, hd, hstray.other hoperator⟩
  | case6 run c cs _ _ hoperator _ t _ ih =>
    obtain ⟨d, hd, hstray⟩ := ih (map_eq_error_iff.mp h)
    exact ⟨d, hd, hstray.other hoperator⟩
  | case7 run c cs _ _ hoperator _ _ ih =>
    obtain ⟨d, hd, hstray⟩ := ih h
    exact ⟨d, hd, hstray.other hoperator⟩

/-- A sign that is not doubled is found behind signs that are. -/
theorem tokensFrom_append_of_doubled (h : Doubled before) (hc : c = '&' ∨ c = '|')
    (hafter : after.head? ≠ some c) (run : List Char) :
    tokensFrom run (before ++ c :: after) = .error (.strayOperator c) := by
  induction h generalizing run with
  | nil =>
    rw [List.nil_append, tokensFrom, if_pos hc]
    · rintro _ rfl rfl
      exact hafter rfl
    · rintro _ rfl rfl
      exact hafter rfl
  | @other d before hd _ ih =>
    obtain ⟨hand, hor⟩ := not_or.mp hd
    rw [List.cons_append, tokensFrom, if_neg hd]
    · split
      · exact map_eq_error_iff.mpr (ih [])
      · split
        · exact map_eq_error_iff.mpr (ih [])
        · exact ih (d :: run)
    · exact fun _ heq _ => hand heq
    · exact fun _ heq _ => hor heq
  | pair hd _ ih =>
    rcases hd with rfl | rfl
    · exact map_eq_error_iff.mpr (ih [])
    · exact map_eq_error_iff.mpr (ih [])

/-- A text falls into no tokens exactly when a sign of it is not doubled, and the first such sign is
reported. -/
theorem tokens_eq_error_iff {s : String} :
    tokens s = .error err ↔ ∃ c, err = .strayOperator c ∧ Stray s.toList c := by
  constructor
  · exact exists_stray_of_tokensFrom
  · rintro ⟨c, rfl, before, after, hs, hbefore, hc, hafter⟩
    rw [tokens, hs]
    exact tokensFrom_append_of_doubled hbefore hc hafter []

end Signs

/-! ### Continuations -/

/-- The tokens can be continued to those of an expression. -/
def Viable (ts : List Token) : Prop := ∃ us e, Derives .disjunction (ts ++ us) e

section Continuations

variable {ts us : List Token} {p : Position} {err : Error}

/-- What can be continued could have been continued at any time before. -/
theorem Viable.of_append (h : Viable (ts ++ us)) : Viable ts := by
  obtain ⟨vs, e, h⟩ := h
  rw [List.append_assoc] at h
  exact ⟨us ++ vs, e, h⟩

/-- When an operand has been read, the parentheses that are open can be closed. -/
theorem Position.exists_finish_after (outer : List Level) (d : Option Expr) (c : Expr) :
    ∃ us q e, (after outer d c).run us = .ok q ∧ q.finish = .ok e := by
  induction outer generalizing d c with
  | nil => exact ⟨[], _, _, rfl, rfl⟩
  | cons l outer ih =>
    obtain ⟨us, q, e, hrun, hfinish⟩ := ih l.disjunction (l.conjoin (disjoin d c))
    exact ⟨.closing :: us, q, e, hrun, hfinish⟩

/-- Wherever the reader stands, something can follow that completes an expression. -/
theorem Position.exists_finish (p : Position) :
    ∃ us q e, p.run us = .ok q ∧ q.finish = .ok e := by
  cases p with
  | before outer here =>
    obtain ⟨us, q, e, hrun, hfinish⟩ :=
      exists_finish_after outer here.disjunction (here.conjoin (.atom "a"))
    exact ⟨.atom "a" :: us, q, e, hrun, hfinish⟩
  | after outer d c => exact exists_finish_after outer d c

/-- The reader goes on for as long as the tokens can be continued to those of an expression. -/
theorem viable_iff : Viable ts ↔ ∃ p, Position.start.run ts = .ok p := by
  constructor
  · rintro ⟨us, e, h⟩
    obtain ⟨d, c, hrun, -⟩ := h.run []
    change Position.start.run (ts ++ us) = _ at hrun
    rw [Position.run, List.foldlM_append, bind_eq_ok_iff] at hrun
    obtain ⟨p, hp, -⟩ := hrun
    exact ⟨p, hp⟩
  · rintro ⟨p, hp⟩
    obtain ⟨us, q, e, hrun, hfinish⟩ := p.exists_finish
    have hreads : Position.start.Reads [] := .before .nil (.intro .none .none 0)
    exact ⟨us, e, (hreads.run ((Position.run_append hp).trans hrun)).finish hfinish⟩

theorem not_viable_iff : ¬Viable ts ↔ ∃ err, Position.start.run ts = .error err := by
  rw [viable_iff]
  cases Position.start.run ts <;> simp

/-- A token that cannot be read is reported by its text. -/
theorem Position.eq_of_step_error {t : Token} (h : p.step t = .error err) :
    err = .unexpected t.text := by
  unfold step at h
  split at h <;> cases h <;> rfl

theorem Position.run_singleton_eq_error_iff {t : Token} :
    p.run [t] = .error err ↔ p.step t = .error err := by
  rw [run, List.foldlM_cons, bind_eq_error_iff]
  refine or_iff_left ?_
  rintro ⟨_, _, h⟩
  cases h

/-- The reader stops at the first token at which there is no continuation any more. -/
theorem run_eq_error_iff : Position.start.run ts = .error err ↔ ∃ before t after,
    ts = before ++ t :: after ∧ err = .unexpected t.text ∧ Viable before ∧
      ¬Viable (before ++ [t]) := by
  constructor
  · intro h
    obtain ⟨before, t, after, p, hts, hbefore, hstep⟩ := exists_of_foldlM_error h
    refine ⟨before, t, after, hts, Position.eq_of_step_error hstep, viable_iff.mpr ⟨p, hbefore⟩,
      not_viable_iff.mpr ⟨err, ?_⟩⟩
    rw [Position.run_append hbefore]
    exact Position.run_singleton_eq_error_iff.mpr hstep
  · rintro ⟨before, t, after, rfl, rfl, hbefore, ht⟩
    obtain ⟨p, hp⟩ := viable_iff.mp hbefore
    obtain ⟨err, herr⟩ := not_viable_iff.mp ht
    rw [Position.run_append hp, Position.run_singleton_eq_error_iff] at herr
    rw [Position.run_append hp, Position.run, List.foldlM_cons, bind_eq_error_iff,
      ← Position.eq_of_step_error herr]
    exact Or.inl herr

theorem exists_of_run_error (h : Position.start.run ts = .error err) :
    ∃ found, err = .unexpected found := by
  obtain ⟨-, t, -, -, rfl, -⟩ := run_eq_error_iff.mp h
  exact ⟨t.text, rfl⟩

theorem Position.eq_of_finish_error (h : p.finish = .error err) : err = .unexpectedEnd := by
  unfold finish at h
  split at h <;> cases h
  rfl

end Continuations

/-! ### Texts -/

namespace Expr

variable {ts : List Token} {err : Error}

/-- What can go wrong with the tokens of a text: the check of their parentheses fails, or the reader
stops at one of them, or something is missing at their end. -/
theorem ofTokens_eq_error_iff : ofTokens ts = .error err ↔
    balanced ts = false ∧ err = .unbalancedParentheses ∨
    balanced ts = true ∧ (Position.start.run ts = .error err ∨
      ts ≠ [] ∧ ∃ p, Position.start.run ts = .ok p ∧ p.finish = .error err) := by
  by_cases hne : ts = []
  · subst hne
    refine iff_of_false nofun ?_
    rintro (⟨h, -⟩ | ⟨-, h | ⟨h, -⟩⟩)
    · cases h
    · cases h
    · exact h rfl
  · cases h : balanced ts with
    | true =>
      rw [ofTokens, if_neg (by simpa using hne), if_pos h, bind_eq_error_iff]
      simp [hne]
    | false =>
      rw [ofTokens, if_neg (by simpa using hne), if_neg (by simp [h])]
      simp [eq_comm]

theorem ofTokens_eq_unbalancedParentheses_iff :
    ofTokens ts = .error .unbalancedParentheses ↔ balanced ts = false := by
  rw [ofTokens_eq_error_iff]
  refine ⟨?_, fun h => .inl ⟨h, rfl⟩⟩
  rintro (⟨h, -⟩ | ⟨-, hrun | ⟨-, p, -, hfinish⟩⟩)
  · exact h
  · obtain ⟨_, ⟨⟩⟩ := exists_of_run_error hrun
  · cases Position.eq_of_finish_error hfinish

theorem ofTokens_ne_unbalancedParentheses_iff :
    ofTokens ts ≠ .error .unbalancedParentheses ↔ balanced ts = true := by
  rw [ne_eq, ofTokens_eq_unbalancedParentheses_iff, Bool.not_eq_false]

theorem ofTokens_eq_unexpected_iff {found : String} : ofTokens ts = .error (.unexpected found) ↔
    ofTokens ts ≠ .error .unbalancedParentheses ∧ ∃ before t after,
      ts = before ++ t :: after ∧ found = t.text ∧ Viable before ∧ ¬Viable (before ++ [t]) := by
  have hrun : Position.start.run ts = .error (.unexpected found) ↔ ∃ before t after,
      ts = before ++ t :: after ∧ found = t.text ∧ Viable before ∧ ¬Viable (before ++ [t]) := by
    rw [run_eq_error_iff]
    simp only [Error.unexpected.injEq]
  rw [ofTokens_ne_unbalancedParentheses_iff, ofTokens_eq_error_iff, ← hrun]
  constructor
  · rintro (⟨-, herr⟩ | ⟨h, hrun | ⟨-, p, -, hfinish⟩⟩)
    · cases herr
    · exact ⟨h, hrun⟩
    · cases Position.eq_of_finish_error hfinish
  · exact fun ⟨h, hrun⟩ => .inr ⟨h, .inl hrun⟩

theorem ofTokens_eq_unexpectedEnd_iff : ofTokens ts = .error .unexpectedEnd ↔
    (∃ err, ofTokens ts = .error err) ∧ ofTokens ts ≠ .error .unbalancedParentheses ∧
      ∀ us, us <+: ts → Viable us := by
  rw [ofTokens_ne_unbalancedParentheses_iff]
  constructor
  · intro h
    refine ⟨⟨_, h⟩, ?_⟩
    rcases ofTokens_eq_error_iff.mp h with ⟨-, herr⟩ | ⟨hbalanced, hrun | ⟨-, p, hrun, -⟩⟩
    · cases herr
    · obtain ⟨_, ⟨⟩⟩ := exists_of_run_error hrun
    · refine ⟨hbalanced, ?_⟩
      rintro us ⟨vs, rfl⟩
      exact (viable_iff.mpr ⟨p, hrun⟩).of_append
  · rintro ⟨⟨err, h⟩, hbalanced, hviable⟩
    rcases ofTokens_eq_error_iff.mp h with ⟨hnot, -⟩ | ⟨-, hrun | ⟨-, p, -, hfinish⟩⟩
    · cases hbalanced.symm.trans hnot
    · exact absurd (hviable ts (List.prefix_refl ts)) (not_viable_iff.mpr ⟨err, hrun⟩)
    · rwa [Position.eq_of_finish_error hfinish] at h

variable {s : String}

theorem parse_eq_strayOperator_iff {c : Char} :
    parse s = .error (.strayOperator c) ↔ Stray s.toList c := by
  rw [parse, bind_eq_error_iff, tokens_eq_error_iff]
  constructor
  · rintro (⟨d, hd, h⟩ | ⟨ts, -, h⟩)
    · cases hd
      exact h
    · rcases ofTokens_eq_error_iff.mp h with ⟨-, herr⟩ | ⟨-, hrun | ⟨-, p, -, hfinish⟩⟩
      · cases herr
      · obtain ⟨_, ⟨⟩⟩ := exists_of_run_error hrun
      · cases Position.eq_of_finish_error hfinish
  · exact fun h => .inl ⟨c, rfl, h⟩

/-- A text falls into tokens unless a sign of it is not doubled. -/
theorem exists_lexes_iff : (∃ ts, Lexes s.toList ts) ↔ ∀ c, ¬Stray s.toList c := by
  cases h : tokens s with
  | ok ts =>
    refine iff_of_true ⟨ts, tokens_eq_ok_iff.mp h⟩ fun c hc => ?_
    cases h.symm.trans (tokens_eq_error_iff.mpr ⟨c, rfl, hc⟩)
  | error err =>
    obtain ⟨c, -, hc⟩ := tokens_eq_error_iff.mp h
    refine iff_of_false (fun ⟨ts, hts⟩ => ?_) fun hnone => hnone c hc
    cases h.symm.trans (tokens_eq_ok_iff.mpr hts)

/-- **The culprit is named.** What is reported of a text that is rejected:

* If an `&` or `|` is not doubled, when the text is read from left to right, the first such sign is
  reported, whatever else is wrong. Any other text falls into tokens.
* Otherwise, if the parentheses do not pair up, this is reported, and nothing else is reported so
  unless more parentheses are open at once than can be counted. Then it is reported of parentheses
  that do pair up.
* Otherwise, if the tokens can be continued to those of an expression, and could have been at every
  time before, it is reported that the text has stopped too early.
* Otherwise the first token is reported at which there is no continuation any more. -/
theorem parse_eq_error_iff (s : String) :
    (∀ c, parse s = .error (.strayOperator c) ↔ Stray s.toList c) ∧
    ((∃ ts, Lexes s.toList ts) ↔ ∀ c, ¬Stray s.toList c) ∧
    ∀ ts, Lexes s.toList ts →
      (Nests maxDepth ts → (parse s = .error .unbalancedParentheses ↔ ¬Paired ts)) ∧
      (¬Nests maxDepth ts → Paired ts → parse s = .error .unbalancedParentheses) ∧
      (parse s = .error .unexpectedEnd ↔ (∃ err, parse s = .error err) ∧
        parse s ≠ .error .unbalancedParentheses ∧ ∀ us, us <+: ts → Viable us) ∧
      ∀ found, parse s = .error (.unexpected found) ↔
        parse s ≠ .error .unbalancedParentheses ∧ ∃ before t after,
          ts = before ++ t :: after ∧ found = t.text ∧ Viable before ∧ ¬Viable (before ++ [t]) := by
  refine ⟨fun c => parse_eq_strayOperator_iff, exists_lexes_iff, fun ts h => ?_⟩
  rw [parse_of_lexes h]
  refine ⟨fun hnests => ?_, fun hdeep hpaired => ofTokens_of_not_nests hpaired hdeep,
    ofTokens_eq_unexpectedEnd_iff, fun found => ofTokens_eq_unexpected_iff⟩
  rw [ofTokens_eq_unbalancedParentheses_iff, ← balanced_iff hnests, Bool.not_eq_true]

/-- Parentheses that pair up are reported as if they did not when one more is open than can be
counted. -/
theorem unbalanced_nested : ∃ ts, Lexes (nested (maxDepth + 1)).toList ts ∧ Paired ts ∧
    parse (nested (maxDepth + 1)) = .error .unbalancedParentheses := by
  obtain ⟨ts, hts, hderives, hnests⟩ := exists_lexes_nested (maxDepth + 1)
  refine ⟨ts, hts, hderives.paired, ?_⟩
  rw [parse_of_lexes hts]
  exact ofTokens_of_not_nests hderives.paired fun h => Nat.not_succ_le_self maxDepth (hnests _ h)

/-- Of several defects the one that is reported need not be the one that stands first. -/
example : parse "a) b && (c | d" = .error (.strayOperator '|') ∧
    parse "a b) && (c" = .error .unbalancedParentheses ∧
    parse "!(a b) &&" = .error (.unexpected "b") := ⟨rfl, rfl, rfl⟩

end Expr

end NodeLending.Label
