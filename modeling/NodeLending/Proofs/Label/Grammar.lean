import NodeLending.Label.Parse
import NodeLending.Proofs.Label.Lexing
import NodeLending.Proofs.Label.Parentheses

/-!
# The grammar of label expressions

The reader goes through a list of tokens once, with a stack of what is still open. What it accepts
can be said without it, by a grammar in which a disjunction is a list of conjunctions, a conjunction
a list of operands, and an operand an atom, a negated operand or a disjunction in parentheses. Lists
group to the left.

The tokens that have been read are made of phrases at any time: on each level of parentheses a
disjunction, a conjunction and negation signs, as far as they have come. So what is read has been
derived. Conversely what is derived is read, one phrase after the other.

## Main definitions

* `Label.Phrase`, `Label.Derives`: the grammar.
* `Label.Position.Reads`: the tokens that have been read when the reader stands somewhere.
* `Label.Phrase.Run`: what reading the tokens of a phrase comes to.
* `Label.Expr.Built`, `Label.Sentence`: expressions that are specified in all parts, and texts of
  expressions.

## Main results

* `Label.Position.Reads.step`, `Label.Position.Reads.run`: what is read has been derived.
* `Label.Derives.run`: what is derived is read.
* `Label.Expr.parse_eq_ok_iff`, `Label.Expr.parse_grammar`: the texts that are accepted, and what
  they are read as.
-/

namespace NodeLending.Label

/-! ### The grammar -/

/-- The phrases of label expressions. -/
inductive Phrase where
  /-- Conjunctions with `||` between them. -/
  | disjunction
  /-- Operands with `&&` between them. -/
  | conjunction
  /-- An atom, a negation or an expression in parentheses. -/
  | operand
  deriving DecidableEq, Repr

/-- The tokens of further phrases, each behind a sign. -/
def further (sign : Token) (rest : List (List Token × Expr)) : List Token :=
  rest.flatMap fun p => sign :: p.1

/-- An expression joined with further ones, grouped to the left. -/
def grouped (join : Expr → Expr → Expr) (e : Expr) (rest : List (List Token × Expr)) : Expr :=
  rest.foldl (fun e p => join e p.2) e

/-- Tokens derive an expression as a phrase by the rules

* disjunction: conjunction ( `||` conjunction )*
* conjunction: operand ( `&&` operand )*
* operand: `!` operand | `(` disjunction `)` | atom

where a list is grouped to the left. -/
inductive Derives : Phrase → List Token → Expr → Prop
  | disjunction {ts : List Token} {e : Expr} {rest : List (List Token × Expr)}
      (h : Derives .conjunction ts e) (hrest : ∀ p ∈ rest, Derives .conjunction p.1 p.2) :
      Derives .disjunction (ts ++ further .or rest) (grouped .or e rest)
  | conjunction {ts : List Token} {e : Expr} {rest : List (List Token × Expr)}
      (h : Derives .operand ts e) (hrest : ∀ p ∈ rest, Derives .operand p.1 p.2) :
      Derives .conjunction (ts ++ further .and rest) (grouped .and e rest)
  | not {ts : List Token} {e : Expr} (h : Derives .operand ts e) :
      Derives .operand (.not :: ts) (.not e)
  | parenthesised {ts : List Token} {e : Expr} (h : Derives .disjunction ts e) :
      Derives .operand (.opening :: (ts ++ [.closing])) e
  | atom (a : String) : Derives .operand [.atom a] (.atom a)

section Lists

variable {sign : Token} {join : Expr → Expr → Expr} {e : Expr} {ts us : List Token}
  {p : List Token × Expr} {rest rest' : List (List Token × Expr)}

theorem further_append : further sign (rest ++ rest') = further sign rest ++ further sign rest' :=
  List.flatMap_append

theorem further_cons : further sign (p :: rest) = sign :: (p.1 ++ further sign rest) :=
  List.flatMap_cons

theorem further_singleton : further sign [p] = sign :: p.1 := by
  rw [further_cons, further, List.flatMap_nil, List.append_nil]

theorem grouped_append :
    grouped join e (rest ++ rest') = grouped join (grouped join e rest) rest' :=
  List.foldl_append

/-- What join keeps is kept by grouping. -/
theorem grouped_induction {I : Expr → Prop} (hjoin : ∀ e p, p ∈ rest → I e → I (join e p.2))
    (he : I e) : I (grouped join e rest) := by
  induction rest generalizing e with
  | nil => exact he
  | cons p rest ih =>
    exact ih (fun e q hq => hjoin e q (List.mem_cons_of_mem p hq)) (hjoin e p List.mem_cons_self he)

namespace Derives

/-- A conjunction is a disjunction. -/
theorem single_disjunction (h : Derives .conjunction ts e) : Derives .disjunction ts e := by
  have hone := Derives.disjunction h (List.forall_mem_nil _)
  rwa [further, List.flatMap_nil, List.append_nil, grouped, List.foldl_nil] at hone

/-- An operand is a conjunction. -/
theorem single_conjunction (h : Derives .operand ts e) : Derives .conjunction ts e := by
  have hone := Derives.conjunction h (List.forall_mem_nil _)
  rwa [further, List.flatMap_nil, List.append_nil, grouped, List.foldl_nil] at hone

/-- A disjunction goes on with further conjunctions. -/
theorem disjunction_append (h : Derives .disjunction ts e)
    (hrest : ∀ p ∈ rest, Derives .conjunction p.1 p.2) :
    Derives .disjunction (ts ++ further .or rest) (grouped .or e rest) := by
  cases h with
  | disjunction h hbefore =>
    rw [List.append_assoc, ← further_append, ← grouped_append]
    exact .disjunction h fun p hp => (List.mem_append.mp hp).elim (hbefore p) (hrest p)

/-- A conjunction goes on with further operands. -/
theorem conjunction_append (h : Derives .conjunction ts e)
    (hrest : ∀ p ∈ rest, Derives .operand p.1 p.2) :
    Derives .conjunction (ts ++ further .and rest) (grouped .and e rest) := by
  cases h with
  | conjunction h hbefore =>
    rw [List.append_assoc, ← further_append, ← grouped_append]
    exact .conjunction h fun p hp => (List.mem_append.mp hp).elim (hbefore p) (hrest p)

end Derives

end Lists

/-! ### What is read has been derived -/

/-- What stands to the left of a phrase: nothing, or a phrase and the sign behind it. -/
inductive Leads (k : Phrase) (sign : Token) : Option Expr → List Token → Prop
  | none : Leads k sign none []
  | some {ts : List Token} {e : Expr} (h : Derives k ts e) : Leads k sign (some e) (ts ++ [sign])

/-- The tokens that have been read on a level. -/
inductive Level.Reads : Level → List Token → Prop
  | intro {d c : Option Expr} {ts us : List Token} (hd : Leads .disjunction .or d ts)
      (hc : Leads .conjunction .and c us) (n : Nat) :
      Reads ⟨d, c, n⟩ (ts ++ us ++ List.replicate n .not)

/-- The tokens that have been read on the levels around. -/
inductive Level.ReadsAll : List Level → List Token → Prop
  | nil : ReadsAll [] []
  | cons {l : Level} {outer : List Level} {ts us : List Token} (houter : ReadsAll outer ts)
      (hl : l.Reads us) : ReadsAll (l :: outer) (ts ++ us ++ [.opening])

/-- The tokens that have been read. -/
inductive Position.Reads : Position → List Token → Prop
  | before {outer : List Level} {here : Level} {ts us : List Token}
      (houter : Level.ReadsAll outer ts) (hhere : here.Reads us) :
      Reads (.before outer here) (ts ++ us)
  | after {outer : List Level} {d : Option Expr} {c : Expr} {ts us vs : List Token}
      (houter : Level.ReadsAll outer ts) (hd : Leads .disjunction .or d us)
      (hc : Derives .conjunction vs c) : Reads (.after outer d c) (ts ++ us ++ vs)

section Reading

variable {ts us vs : List Token} {e c : Expr} {d : Option Expr} {l : Level} {outer : List Level}
  {p p' : Position}

/-- Waiting negations apply to an operand. -/
theorem Derives.negated (h : Derives .operand ts e) (n : Nat) :
    Derives .operand (List.replicate n .not ++ ts) (Level.negated n e) := by
  induction n with
  | zero => exact h
  | succ n ih => exact .not ih

theorem Leads.disjoin (hd : Leads .disjunction .or d ts) (hc : Derives .conjunction us c) :
    Derives .disjunction (ts ++ us) (disjoin d c) := by
  cases hd with
  | none => exact hc.single_disjunction
  | @some ts d h =>
    have hmore : ∀ p ∈ [(us, c)], Derives .conjunction p.1 p.2 := by simpa using hc
    have hjoin := h.disjunction_append hmore
    rwa [further_singleton, List.append_cons] at hjoin

/-- An operand ends a conjunction. -/
theorem Leads.conjoin (hc : Leads .conjunction .and l.conjunction ts)
    (he : Derives .operand us (Level.negated l.negations e)) :
    Derives .conjunction (ts ++ us) (l.conjoin e) := by
  obtain ⟨d, c, n⟩ := l
  cases hc with
  | none => exact he.single_conjunction
  | @some ts c h =>
    have hmore : ∀ p ∈ [(us, Level.negated n e)], Derives .operand p.1 p.2 := by simpa using he
    have hjoin := h.conjunction_append hmore
    rwa [further_singleton, List.append_cons] at hjoin

namespace Position.Reads

/-- An operand has been read behind what stands on its level. -/
theorem operand (houter : Level.ReadsAll outer ts) (hl : l.Reads us) (he : Derives .operand vs e) :
    (Position.after outer l.disjunction (l.conjoin e)).Reads (ts ++ us ++ vs) := by
  cases hl with
  | @intro d c ds cs hd hc n =>
    have hread := Reads.after houter hd (hc.conjoin (l := ⟨d, c, n⟩) (he.negated n))
    simpa using hread

/-- A token is read behind those that have been read. -/
theorem step {t : Token} (h : p.Reads ts) (hs : p.step t = .ok p') : p'.Reads (ts ++ [t]) := by
  cases h with
  | @before outer here ts us houter hhere =>
    cases t with
    | atom a =>
      cases hs
      exact operand houter hhere (.atom a)
    | not =>
      cases hs
      obtain ⟨hd, hc, n⟩ := hhere
      have hread := Reads.before houter (.intro hd hc (n + 1))
      rw [List.replicate_succ'] at hread
      simpa using hread
    | opening =>
      cases hs
      have hread : (Position.before _ .start).Reads _ :=
        .before (houter.cons hhere) (.intro .none .none 0)
      simpa using hread
    | and | or | closing => cases hs
  | @after outer d c ts us vs houter hd hc =>
    cases t with
    | and =>
      cases hs
      have hread := Reads.before houter (.intro hd (.some hc) 0)
      simpa using hread
    | or =>
      cases hs
      have hread := Reads.before houter (.intro (.some (hd.disjoin hc)) .none 0)
      simpa using hread
    | closing =>
      cases houter with
      | nil => cases hs
      | cons houter hl =>
        cases hs
        have hread := operand houter hl (.parenthesised (hd.disjoin hc))
        simpa using hread
    | atom | not | opening => cases hs

/-- Tokens are read behind those that have been read. -/
theorem run (h : p.Reads ts) (hs : p.run us = .ok p') : p'.Reads (ts ++ us) := by
  induction us generalizing p ts with
  | nil =>
    cases hs
    rwa [List.append_nil]
  | cons t us ih =>
    rw [Position.run, List.foldlM_cons, bind_eq_ok_iff] at hs
    obtain ⟨q, hq, hs⟩ := hs
    rw [List.append_cons]
    exact ih (h.step hq) hs

/-- What has been read in the end is a disjunction. -/
theorem finish (h : p.Reads ts) (he : p.finish = .ok e) : Derives .disjunction ts e := by
  cases h with
  | before => cases he
  | after houter hd hc =>
    cases houter with
    | nil =>
      cases he
      exact hd.disjoin hc
    | cons => cases he

end Position.Reads

end Reading

/-! ### What is derived is read -/

/-- What reading the tokens of a phrase comes to. -/
def Phrase.Run : Phrase → List Token → Expr → Prop
  | .disjunction, ts, e => ∀ outer, ∃ d c,
    (Position.before outer .start).run ts = .ok (.after outer d c) ∧ disjoin d c = e
  | .conjunction, ts, e => ∀ outer d,
    (Position.before outer ⟨d, none, 0⟩).run ts = .ok (.after outer d e)
  | .operand, ts, e => ∀ outer here,
    (Position.before outer here).run ts = .ok (.after outer here.disjunction (here.conjoin e))

section Running

variable {k : Phrase} {ts us : List Token} {e : Expr} {p q : Position}

/-- Two lists of tokens are read one after the other. -/
theorem Position.run_append (h : p.run ts = .ok q) : p.run (ts ++ us) = q.run us := by
  rw [run, List.foldlM_append]
  rw [run] at h
  rw [h]
  rfl

theorem Level.negated_not (n : Nat) (e : Expr) : negated n (.not e) = negated (n + 1) e := by
  induction n with
  | zero => rfl
  | succ n ih => exact congrArg Expr.not ih

theorem Level.conjoin_not (l : Level) (e : Expr) :
    l.conjoin (.not e) = { l with negations := l.negations + 1 }.conjoin e := by
  rw [conjoin, conjoin, negated_not]

/-- Further operands are read one after the other. -/
theorem run_further_and {rest : List (List Token × Expr)}
    (hrest : ∀ p ∈ rest, Phrase.operand.Run p.1 p.2) (outer : List Level) (d : Option Expr)
    (c : Expr) :
    (Position.after outer d c).run (further .and rest) =
      .ok (.after outer d (grouped .and c rest)) := by
  induction rest generalizing c with
  | nil => rfl
  | cons p rest ih =>
    have hfirst : (Position.after outer d c).run (.and :: p.1) =
        .ok (.after outer d (.and c p.2)) :=
      hrest p List.mem_cons_self outer ⟨d, some c, 0⟩
    rw [further_cons, ← List.cons_append, Position.run_append hfirst]
    exact ih (fun q hq => hrest q (List.mem_cons_of_mem p hq)) (.and c p.2)

/-- Further conjunctions are read one after the other. -/
theorem run_further_or {rest : List (List Token × Expr)}
    (hrest : ∀ p ∈ rest, Phrase.conjunction.Run p.1 p.2) (outer : List Level) (d : Option Expr)
    (c : Expr) : ∃ d' c', (Position.after outer d c).run (further .or rest) =
      .ok (.after outer d' c') ∧ disjoin d' c' = grouped .or (disjoin d c) rest := by
  induction rest generalizing d c with
  | nil => exact ⟨d, c, rfl, rfl⟩
  | cons p rest ih =>
    have hfirst : (Position.after outer d c).run (.or :: p.1) =
        .ok (.after outer (some (disjoin d c)) p.2) :=
      hrest p List.mem_cons_self outer (some (disjoin d c))
    rw [further_cons, ← List.cons_append, Position.run_append hfirst]
    exact ih (fun q hq => hrest q (List.mem_cons_of_mem p hq)) (some (disjoin d c)) p.2

/-- The tokens of a phrase are read. -/
theorem Derives.run (h : Derives k ts e) : k.Run ts e := by
  induction h with
  | disjunction _ _ ih ihrest =>
    intro outer
    have hfirst : (Position.before outer .start).run _ = _ := ih outer none
    rw [Position.run_append hfirst]
    exact run_further_or ihrest outer none _
  | conjunction _ _ ih ihrest =>
    intro outer d
    rw [Position.run_append (ih outer ⟨d, none, 0⟩)]
    exact run_further_and ihrest outer d _
  | not _ ih =>
    intro outer here
    rw [Level.conjoin_not]
    exact ih outer { here with negations := here.negations + 1 }
  | @parenthesised ts e _ ih =>
    intro outer here
    obtain ⟨d, c, hrun, rfl⟩ := ih (here :: outer)
    have hopen : (Position.before outer here).run (.opening :: ts) =
        .ok (.after (here :: outer) d c) :=
      hrun
    rw [← List.cons_append, Position.run_append hopen]
    rfl
  | atom a => exact fun outer here => rfl

theorem further_paired {sign : Token} {rest : List (List Token × Expr)} (hopen : sign ≠ .opening)
    (hclose : sign ≠ .closing) (hrest : ∀ p ∈ rest, Paired p.1) : Paired (further sign rest) :=
  Paired.flatMap fun p hp => (hrest p hp).cons hopen hclose

/-- The parentheses of a phrase pair up. -/
theorem Derives.paired (h : Derives k ts e) : Paired ts := by
  induction h with
  | disjunction _ _ ih ihrest => exact ih.append (further_paired nofun nofun ihrest)
  | conjunction _ _ ih ihrest => exact ih.append (further_paired nofun nofun ihrest)
  | not _ ih => exact ih.cons nofun nofun
  | parenthesised _ ih => exact ih.enclose
  | atom a => exact paired_nil.cons nofun nofun

theorem Derives.ne_nil (h : Derives k ts e) : ts ≠ [] := by
  induction h with
  | disjunction _ _ ih _ => simp [ih]
  | conjunction _ _ ih _ => simp [ih]
  | _ => simp

/-- Tokens derive one expression at most. -/
theorem Derives.unique {e' : Expr} (h : Derives .disjunction ts e)
    (h' : Derives .disjunction ts e') : e = e' := by
  obtain ⟨d, c, hrun, rfl⟩ := h.run []
  obtain ⟨d', c', hrun', rfl⟩ := h'.run []
  cases hrun.symm.trans hrun'
  rfl

end Running

/-! ### Expressions -/

namespace Expr

variable {ts : List Token} {e : Expr}

/-- Tokens in which too many parentheses are open at once are rejected even if all pair up. -/
theorem ofTokens_of_not_nests (h : Paired ts) (hdeep : ¬Nests maxDepth ts) :
    ofTokens ts = .error .unbalancedParentheses := by
  have hne : ts ≠ [] := fun hnil => hdeep (hnil ▸ nests_nil)
  rw [ofTokens, if_neg (by simpa using hne), if_neg (mt h.balanced_iff.mp hdeep)]

/-- **The grammar.** A list of tokens is read as an expression exactly when it is empty and the
expression is unspecified, or it derives the expression and its parentheses can be counted. -/
theorem ofTokens_eq_ok_iff : ofTokens ts = .ok e ↔
    ts = [] ∧ e = unspecified ∨ Derives .disjunction ts e ∧ Nests maxDepth ts := by
  constructor
  · intro h
    rw [ofTokens] at h
    split at h
    · next hempty =>
      cases h
      exact Or.inl ⟨List.isEmpty_iff.mp hempty, rfl⟩
    · split at h
      · next hbalanced =>
        obtain ⟨p, hp, he⟩ := bind_eq_ok_iff.mp h
        have hstart : Position.start.Reads [] := .before .nil (.intro .none .none 0)
        have hderives := (hstart.run hp).finish he
        exact Or.inr ⟨hderives, hderives.paired.balanced_iff.mp hbalanced⟩
      · cases h
  · rintro (⟨rfl, rfl⟩ | ⟨h, hnests⟩)
    · rfl
    · obtain ⟨d, c, hrun, rfl⟩ := h.run []
      rw [ofTokens, if_neg (by simpa using h.ne_nil),
        if_pos (h.paired.balanced_iff.mpr hnests)]
      exact bind_eq_ok_iff.mpr ⟨_, hrun, rfl⟩

/-- An expression is specified in all its parts, and its atoms are of a kind. -/
inductive Built (P : String → Prop) : Expr → Prop
  | atom {a : String} (ha : P a) : Built P (.atom a)
  | not {e : Expr} (h : Built P e) : Built P (.not e)
  | and {l r : Expr} (hl : Built P l) (hr : Built P r) : Built P (.and l r)
  | or {l r : Expr} (hl : Built P l) (hr : Built P r) : Built P (.or l r)

end Expr

/-- What is derived is specified in all its parts, from the atoms among the tokens. -/
theorem Derives.built {P : String → Prop} {k : Phrase} {ts : List Token} {e : Expr}
    (h : Derives k ts e) (hts : ∀ t ∈ ts, ∀ a, t = .atom a → P a) : e.Built P := by
  have hfurther : ∀ {sign : Token} {rest : List (List Token × Expr)},
      (∀ t ∈ further sign rest, ∀ a, t = .atom a → P a) →
        ∀ p ∈ rest, ∀ t ∈ p.1, ∀ a, t = .atom a → P a :=
    fun h p hp t ht => h t (List.mem_flatMap.mpr ⟨p, hp, List.mem_cons_of_mem _ ht⟩)
  induction h with
  | disjunction _ _ ih ihrest =>
    obtain ⟨hfirst, hrest⟩ := List.forall_mem_append.mp hts
    exact grouped_induction (fun e p hp he => .or he (ihrest p hp (hfurther hrest p hp)))
      (ih hfirst)
  | conjunction _ _ ih ihrest =>
    obtain ⟨hfirst, hrest⟩ := List.forall_mem_append.mp hts
    exact grouped_induction (fun e p hp he => .and he (ihrest p hp (hfurther hrest p hp)))
      (ih hfirst)
  | not _ ih => exact .not (ih (List.forall_mem_cons.mp hts).2)
  | parenthesised _ ih =>
    exact ih (List.forall_mem_append.mp (List.forall_mem_cons.mp hts).2).1
  | atom a => exact .atom (hts _ List.mem_cons_self a rfl)

/-- A text is that of an expression: it falls into tokens, and there are none and the expression is
unspecified, or they derive the expression. -/
def Sentence (s : String) (e : Expr) : Prop :=
  ∃ ts, Lexes s.toList ts ∧ (ts = [] ∧ e = .unspecified ∨ Derives .disjunction ts e)

/-- Never more parentheses are open in a text than can be counted. -/
def Shallow (s : String) : Prop := ∀ ts, Lexes s.toList ts → Nests maxDepth ts

theorem shallow_iff {s : String} {ts : List Token} (h : Lexes s.toList ts) :
    Shallow s ↔ Nests maxDepth ts :=
  ⟨fun hs => hs ts h, fun hn _ hus => h.eq hus ▸ hn⟩

/-! ### Texts in parentheses -/

section Enclosed

variable {s : String} {ts : List Token}

theorem Lexes.parenthesised (h : Lexes s.toList ts) :
    Lexes (Expr.parenthesised s).toList (.opening :: (ts ++ [.closing])) := by
  have hchars : (Expr.parenthesised s).toList =
      Token.opening.text.toList ++ (s.toList ++ Token.closing.text.toList) := by
    simp [Expr.parenthesised, Token.text]
  have hclose : Lexes Token.closing.text.toList [.closing] := .sign (t := .closing) nofun .nil
  rw [hchars]
  exact .sign nofun (h.append (ends_cons.mpr rfl) hclose)

theorem isAtom_a : IsAtom "a" := ⟨by decide, by simp [isAtomChar, Text.isBlank]⟩

/-- The label `a` in parentheses, `n` times. -/
def nested : Nat → String
  | 0 => "a"
  | n + 1 => Expr.parenthesised (nested n)

/-- The parentheses of `nested n` pair up, and `n` of them are open at once. -/
theorem exists_lexes_nested (n : Nat) : ∃ ts, Lexes (nested n).toList ts ∧
    Derives .operand ts (.atom "a") ∧ ∀ m, Nests m ts → n ≤ m := by
  induction n with
  | zero =>
    exact ⟨_, isAtom_a.lexes, .atom "a", fun m _ => Nat.zero_le m⟩
  | succ n ih =>
    obtain ⟨ts, hts, hderives, hnests⟩ := ih
    refine ⟨_, hts.parenthesised, .parenthesised hderives.single_conjunction.single_disjunction,
      fun m hm => ?_⟩
    cases m with
    | zero => exact absurd hm not_nests_zero_enclose
    | succ m => exact Nat.succ_le_succ (hnests m ((nests_succ_enclose_iff hderives.paired).mp hm))

theorem sentence_nested (n : Nat) : Sentence (nested n) (.atom "a") := by
  obtain ⟨ts, hts, hderives, -⟩ := exists_lexes_nested n
  exact ⟨ts, hts, .inr hderives.single_conjunction.single_disjunction⟩

theorem not_shallow_nested {n : Nat} (h : maxDepth < n) : ¬Shallow (nested n) := by
  obtain ⟨ts, hts, -, hnests⟩ := exists_lexes_nested n
  rw [shallow_iff hts]
  exact fun hn => Nat.not_le_of_lt h (hnests maxDepth hn)

end Enclosed

/-! ### Texts -/

namespace Expr

variable {s : String} {ts : List Token} {e e' : Expr}

theorem parse_of_lexes (h : Lexes s.toList ts) : parse s = ofTokens ts := by
  rw [parse, tokens_eq_ok_iff.mpr h]
  rfl

/-- A text is read as an expression exactly when it is a text of the expression and its parentheses
can be counted. -/
theorem parse_eq_ok_iff : parse s = .ok e ↔ Sentence s e ∧ Shallow s := by
  simp only [parse, bind_eq_ok_iff, tokens_eq_ok_iff, ofTokens_eq_ok_iff]
  constructor
  · rintro ⟨ts, hts, h⟩
    rw [shallow_iff hts]
    rcases h with ⟨rfl, rfl⟩ | ⟨h, hnests⟩
    · exact ⟨⟨_, hts, .inl ⟨rfl, rfl⟩⟩, nests_nil⟩
    · exact ⟨⟨_, hts, .inr h⟩, hnests⟩
  · rintro ⟨⟨ts, hts, h⟩, hshallow⟩
    exact ⟨ts, hts, h.imp_right fun hd => ⟨hd, hshallow ts hts⟩⟩

/-- A text of an expression is rejected when its parentheses cannot be counted. -/
theorem parse_of_not_shallow (h : Sentence s e) (hdeep : ¬Shallow s) :
    parse s = .error .unbalancedParentheses := by
  obtain ⟨ts, hts, h⟩ := h
  rw [shallow_iff hts] at hdeep
  rw [parse_of_lexes hts]
  rcases h with ⟨rfl, -⟩ | h
  · exact absurd nests_nil hdeep
  · exact ofTokens_of_not_nests h.paired hdeep

theorem Sentence.unique (h : Sentence s e) (h' : Sentence s e') : e = e' := by
  obtain ⟨ts, hts, h⟩ := h
  obtain ⟨us, hus, h'⟩ := h'
  obtain rfl := hts.eq hus
  rcases h with ⟨rfl, rfl⟩ | h
  · exact (h'.resolve_right fun h' => h'.ne_nil rfl).2.symm
  · exact h.unique (h'.resolve_left fun hnil => h.ne_nil hnil.1)

/-- The atoms of a text of an expression can be written as atoms. -/
theorem built_of_sentence (h : Sentence s e) : e = unspecified ∨ e.Built IsAtom := by
  obtain ⟨ts, hts, ⟨-, he⟩ | h⟩ := h
  · exact Or.inl he
  · refine Or.inr (h.built fun t ht a heq => ?_)
    exact hts.isAtom_of_mem (heq ▸ ht)

/-- **The texts of expressions.** A text is read as an expression exactly when the expression is
that of the text by the grammar and never more parentheses are open in it than can be counted. Any
other text is rejected, and one whose parentheses cannot be counted as if they did not pair up.
There is no second expression for a text, and no part of an expression is unspecified unless it is
all of it. -/
theorem parse_grammar (s : String) :
    (∀ e, parse s = .ok e ↔ Sentence s e ∧ Shallow s) ∧
    ((∃ err, parse s = .error err) ↔ ∀ e, Sentence s e → ¬Shallow s) ∧
    (∀ e, Sentence s e → ¬Shallow s → parse s = .error .unbalancedParentheses) ∧
    (∀ e e', Sentence s e → Sentence s e' → e = e') ∧
    ∀ e, Sentence s e → e = unspecified ∨ e.Built IsAtom := by
  refine ⟨fun e => parse_eq_ok_iff, ?_, fun e => parse_of_not_shallow, fun e e' => Sentence.unique,
    fun e => built_of_sentence⟩
  simp only [← not_and, ← parse_eq_ok_iff]
  cases parse s <;> simp

/-- A label in one more pair of parentheses than can be counted is not read, although the grammar
has it. -/
theorem parse_nested : Sentence (nested (maxDepth + 1)) (.atom "a") ∧
    parse (nested (maxDepth + 1)) = .error .unbalancedParentheses :=
  ⟨sentence_nested _,
    parse_of_not_shallow (sentence_nested _) (not_shallow_nested (Nat.lt_add_one maxDepth))⟩

/-- Conjunction binds tighter than disjunction, and negation tighter than both. -/
example : parse "a||b || c && d &&!(e || f)" =
    .ok (.or (.or (.atom "a") (.atom "b"))
      (.and (.and (.atom "c") (.atom "d")) (.not (.or (.atom "e") (.atom "f"))))) := rfl

end Expr

end NodeLending.Label
