import NodeLending.Proofs.Label.Grammar
import NodeLending.Proofs.Reservation.Stage

/-!
# Printed label expressions

An expression is printed with as few parentheses as its meaning allows. So the way in which
conjunctions or disjunctions are grouped is lost, and what is read from the text may be another
expression. It means the same though, and it is printed in the same way.

This is shown with the grammar: the text of an expression derives an expression that is alike, as
the phrase that the expression is. Where the right one of two conjunctions is not parenthesised, its
operands go on with the list of the left one, which is another grouping of the same.

The text has to be shallow enough for its parentheses to be counted. How deep it is can be seen from
the expression, and no text that the expression is read from is less deep.

## Main definitions

* `Label.Expr.depth`: how deep the parentheses in the text of an expression are nested.
* `Label.Expr.Alike`: two expressions mean the same and are printed in the same way.
* `Label.Expr.Renders`: a text derives an expression that is alike.

## Main results

* `Label.Expr.alike_grouped_and`, `Label.Expr.alike_grouped_or`: the grouping of a list.
* `Label.Derives.depth_le`: every text of an expression is as deep as the one that is printed.
* `Label.Expr.Built.renders`, `Label.Expr.shallow_print_iff`: the text of an expression.
* `Label.Expr.parse_print`: what is read from the text of an expression.
-/

namespace NodeLending.Label

namespace Expr

/-! ### Depth -/

/-- How deep the parentheses in the text of an expression are nested. -/
def depth : Expr → Nat
  | unspecified | atom _ => 0
  | not e => if e.isUnary then e.depth else e.depth + 1
  | and l r => max (if l.isOr then l.depth + 1 else l.depth) (if r.isOr then r.depth + 1 else r.depth)
  | or l r => max l.depth r.depth

/-- How deep they are nested where the expression stands as a phrase. -/
def depthAs (e : Expr) : Phrase → Nat
  | .disjunction => e.depth
  | .conjunction => if e.isOr then e.depth + 1 else e.depth
  | .operand => if e.isUnary then e.depth else e.depth + 1

theorem depth_le_depthAs (e : Expr) (k : Phrase) : e.depth ≤ e.depthAs k := by
  cases k with
  | disjunction => exact Nat.le_refl _
  | conjunction | operand => simp only [depthAs]; split <;> omega

theorem depthAs_operand_le (e : Expr) : e.depthAs .operand ≤ e.depth + 1 := by
  simp only [depthAs]
  split <;> omega

theorem depthAs_conjunction_le (e : Expr) : e.depthAs .conjunction ≤ e.depthAs .operand := by
  cases e <;> simp [depthAs, isOr, isUnary]

end Expr

theorem Nests.of_further {t : Token} {rest : List (List Token × Expr)} {n : Nat}
    (hopen : t ≠ .opening) (hclose : t ≠ .closing) (hrest : ∀ p ∈ rest, Paired p.1)
    (h : Nests n (further t rest)) : ∀ p ∈ rest, Nests n p.1 := fun p hp =>
  (nests_cons_iff hopen hclose).mp
    (Nests.flatMap (fun p hp => (hrest p hp).cons hopen hclose) h p hp)

/-- Every text of an expression is as deep as the one that is printed. -/
theorem Derives.depth_le {k : Phrase} {ts : List Token} {e : Expr} {n : Nat} (h : Derives k ts e)
    (hn : Nests n ts) : e.depthAs k ≤ n := by
  induction h generalizing n with
  | disjunction h hrest ih ihrest =>
    obtain ⟨hfirst, hn⟩ := (nests_append_iff h.paired.closed).mp hn
    have hn := hn.of_further (t := .or) nofun nofun fun p hp => (hrest p hp).paired
    refine grouped_induction (I := fun e => e.depthAs .disjunction ≤ n) (fun e p hp he => ?_)
      (Nat.le_trans (Expr.depth_le_depthAs _ .conjunction) (ih hfirst))
    exact Nat.max_le.mpr ⟨he, Nat.le_trans (Expr.depth_le_depthAs _ _) (ihrest p hp (hn p hp))⟩
  | conjunction h hrest ih ihrest =>
    obtain ⟨hfirst, hn⟩ := (nests_append_iff h.paired.closed).mp hn
    have hn := hn.of_further (t := .and) nofun nofun fun p hp => (hrest p hp).paired
    refine grouped_induction (I := fun e => e.depthAs .conjunction ≤ n) (fun e p hp he => ?_)
      (Nat.le_trans (Expr.depthAs_conjunction_le _) (ih hfirst))
    exact Nat.max_le.mpr
      ⟨he, Nat.le_trans (Expr.depthAs_conjunction_le _) (ihrest p hp (hn p hp))⟩
  | not _ ih => exact ih ((nests_cons_iff (t := .not) (by decide) (by decide)).mp hn)
  | parenthesised h ih =>
    cases n with
    | zero => exact absurd hn not_nests_zero_enclose
    | succ n =>
      have hinner : _ ≤ n := ih ((nests_succ_enclose_iff h.paired).mp hn)
      exact Nat.le_trans (Expr.depthAs_operand_le _) (Nat.succ_le_succ hinner)
  | atom a => exact Nat.zero_le n

namespace Expr

/-! ### Expressions that are alike -/

/-- Two expressions mean the same, and they are printed in the same way wherever they stand. -/
structure Alike (e e' : Expr) : Prop where
  /-- They mean the same. -/
  eval : ∀ has, e'.eval has = e.eval has
  /-- They are printed in the same way. -/
  print : e'.print = e.print
  /-- They are parenthesised as operands of a conjunction, or both are not. -/
  isOr : e'.isOr = e.isOr
  /-- They are parenthesised as operands of a negation, or both are not. -/
  isUnary : e'.isUnary = e.isUnary
  /-- Their texts are equally deep. -/
  depth : e'.depth = e.depth

/-- The text of an operand of a conjunction. -/
def conjunct (e : Expr) : String := if e.isOr then parenthesised e.print else e.print

/-- The text of the operand of a negation. -/
def negand (e : Expr) : String := if e.isUnary then e.print else parenthesised e.print

theorem print_not (e : Expr) : (not e).print = "!" ++ e.negand := rfl

theorem print_and (l r : Expr) : (and l r).print = l.conjunct ++ " && " ++ r.conjunct := rfl

theorem print_or (l r : Expr) : (or l r).print = l.print ++ " || " ++ r.print := rfl

namespace Alike

variable {e e' e'' l l' r r' : Expr}

theorem refl (e : Expr) : e.Alike e := ⟨fun _ => rfl, rfl, rfl, rfl, rfl⟩

theorem trans (h : e.Alike e') (h' : e'.Alike e'') : e.Alike e'' where
  eval has := (h'.eval has).trans (h.eval has)
  print := h'.print.trans h.print
  isOr := h'.isOr.trans h.isOr
  isUnary := h'.isUnary.trans h.isUnary
  depth := h'.depth.trans h.depth

theorem conjunct (h : e.Alike e') : e'.conjunct = e.conjunct := by
  rw [Expr.conjunct, Expr.conjunct, h.isOr, h.print]

theorem negand (h : e.Alike e') : e'.negand = e.negand := by
  rw [Expr.negand, Expr.negand, h.isUnary, h.print]

theorem depthAs (h : e.Alike e') (k : Phrase) : e'.depthAs k = e.depthAs k := by
  cases k <;> simp only [Expr.depthAs, h.isOr, h.isUnary, h.depth]

theorem not (h : e.Alike e') : (Expr.not e).Alike (.not e') where
  eval has := by rw [Expr.eval, Expr.eval, h.eval]
  print := by rw [print_not, print_not, h.negand]
  isOr := rfl
  isUnary := rfl
  depth := h.depthAs .operand

theorem and (hl : l.Alike l') (hr : r.Alike r') : (Expr.and l r).Alike (.and l' r') where
  eval has := by rw [Expr.eval, Expr.eval, hl.eval, hr.eval]
  print := by rw [print_and, print_and, hl.conjunct, hr.conjunct]
  isOr := rfl
  isUnary := rfl
  depth := congrArg₂ max (hl.depthAs .conjunction) (hr.depthAs .conjunction)

theorem or (hl : l.Alike l') (hr : r.Alike r') : (Expr.or l r).Alike (.or l' r') where
  eval has := by rw [Expr.eval, Expr.eval, hl.eval, hr.eval]
  print := by rw [print_or, print_or, hl.print, hr.print]
  isOr := rfl
  isUnary := rfl
  depth := congrArg₂ max hl.depth hr.depth

/-- Conjunctions may be grouped in another way. -/
theorem and_assoc (l e r : Expr) : (Expr.and l (.and e r)).Alike (.and (.and l e) r) where
  eval has := Bool.and_assoc _ _ _
  print := by simp only [print_and, Expr.conjunct, Expr.isOr, Bool.false_eq_true, if_false,
    String.append_assoc]
  isOr := rfl
  isUnary := rfl
  depth := Nat.max_assoc _ _ _

/-- Disjunctions may be grouped in another way. -/
theorem or_assoc (l e r : Expr) : (Expr.or l (.or e r)).Alike (.or (.or l e) r) where
  eval has := Bool.or_assoc _ _ _
  print := by simp only [print_or, String.append_assoc]
  isOr := rfl
  isUnary := rfl
  depth := Nat.max_assoc _ _ _

end Alike

section Grouping

variable {l e e' : Expr}

/-- A conjunction in front of others may be grouped with the first of them. -/
theorem alike_grouped_and (h : (and l e).Alike e') (rest : List (List Token × Expr)) :
    (and l (grouped .and e rest)).Alike (grouped .and e' rest) := by
  induction rest generalizing e e' with
  | nil => exact h
  | cons p rest ih => exact ih ((Alike.and_assoc l e p.2).trans (h.and (.refl p.2)))

/-- A disjunction in front of others may be grouped with the first of them. -/
theorem alike_grouped_or (h : (or l e).Alike e') (rest : List (List Token × Expr)) :
    (or l (grouped .or e rest)).Alike (grouped .or e' rest) := by
  induction rest generalizing e e' with
  | nil => exact h
  | cons p rest ih => exact ih ((Alike.or_assoc l e p.2).trans (h.or (.refl p.2)))

end Grouping

/-! ### Texts of expressions -/

/-- A text, at most `n` deep, derives as a phrase an expression that is alike. -/
def Renders (k : Phrase) (s : String) (n : Nat) (e : Expr) : Prop :=
  ∃ ts e', Lexes s.toList ts ∧ Nests n ts ∧ Derives k ts e' ∧ e.Alike e'

/-- The phrase that an expression is printed as. -/
def phrase : Expr → Phrase
  | or _ _ => .disjunction
  | and _ _ => .conjunction
  | _ => .operand

namespace Renders

variable {k : Phrase} {s t : String} {n m : Nat} {e l r : Expr}

theorem mono (h : Renders k s n e) (hnm : n ≤ m) : Renders k s m e := by
  obtain ⟨ts, e', hts, hn, hd, halike⟩ := h
  exact ⟨ts, e', hts, hn.mono hnm, hd, halike⟩

theorem conjunction (h : Renders .operand s n e) : Renders .conjunction s n e := by
  obtain ⟨ts, e', hts, hn, hd, halike⟩ := h
  exact ⟨ts, e', hts, hn, hd.single_conjunction, halike⟩

theorem disjunction (h : Renders .conjunction s n e) : Renders .disjunction s n e := by
  obtain ⟨ts, e', hts, hn, hd, halike⟩ := h
  exact ⟨ts, e', hts, hn, hd.single_disjunction, halike⟩

theorem of_phrase (h : Renders e.phrase s n e) : Renders .disjunction s n e := by
  cases e with
  | or => exact h
  | and => exact h.disjunction
  | _ => exact h.conjunction.disjunction

/-- A text in parentheses is an operand. -/
theorem parenthesised (h : Renders .disjunction s n e) :
    Renders .operand (parenthesised s) (n + 1) e := by
  obtain ⟨ts, e', hts, hn, hd, halike⟩ := h
  exact ⟨_, e', hts.parenthesised, (nests_succ_enclose_iff hd.paired).mpr hn, .parenthesised hd,
    halike⟩

/-- The text of an operand of a conjunction. -/
theorem conjunct (h : Renders e.phrase e.print e.depth e) :
    Renders .conjunction e.conjunct (e.depthAs .conjunction) e := by
  cases e with
  | or => exact (parenthesised h).conjunction
  | and => exact h
  | _ => exact h.conjunction

/-- The text of the operand of a negation. -/
theorem negand (h : Renders e.phrase e.print e.depth e) :
    Renders .operand e.negand (e.depthAs .operand) e := by
  cases e with
  | atom | not => exact h
  | _ => exact parenthesised h.of_phrase

theorem not (h : Renders .operand s n e) : Renders .operand ("!" ++ s) n (.not e) := by
  obtain ⟨ts, e', hts, hn, hd, halike⟩ := h
  have hchars : ("!" ++ s).toList = Token.not.text.toList ++ s.toList := by simp [Token.text]
  refine ⟨_, _, ?_, (nests_cons_iff (t := .not) (by decide) (by decide)).mpr hn, .not hd, halike.not⟩
  rw [hchars]
  exact .sign (by simp) hts

/-- Two texts with a sign and blanks between them. -/
theorem lexes_between {cs ds : List Char} {ts us : List Token} (sign : Token)
    (hsign : ∀ a, sign ≠ .atom a) (h : Lexes cs ts) (h' : Lexes ds us) :
    Lexes (cs ++ ' ' :: (sign.text.toList ++ ' ' :: ds)) (ts ++ sign :: us) :=
  h.append (ends_cons.mpr rfl) (.blank rfl (.sign hsign (.blank rfl h')))

/-- Two conjunctions with `&&` between them. -/
theorem and (hl : Renders .conjunction s n l) (hr : Renders .conjunction t n r) :
    Renders .conjunction (s ++ " && " ++ t) n (.and l r) := by
  obtain ⟨ts, l', hts, hnl, hdl, hl⟩ := hl
  obtain ⟨us, r', hus, hnr, hdr, hr⟩ := hr
  have hlex := lexes_between .and nofun hts hus
  have hn := (nests_append_iff hdl.paired.closed).mpr
    ⟨hnl, (nests_cons_iff (t := .and) (by decide) (by decide)).mpr hnr⟩
  have hchars : (s ++ " && " ++ t).toList =
      s.toList ++ ' ' :: (Token.and.text.toList ++ ' ' :: t.toList) := by simp [Token.text]
  cases hdr with
  | @conjunction us e rest hfirst hrest =>
    have hmore : ∀ p ∈ (us, e) :: rest, Derives .operand p.1 p.2 :=
      List.forall_mem_cons.mpr ⟨hfirst, hrest⟩
    have hderives := hdl.conjunction_append hmore
    rw [further_cons] at hderives
    refine ⟨_, _, hchars ▸ hlex, hn, hderives, (hl.and hr).trans ?_⟩
    exact alike_grouped_and (.refl _) rest

/-- Two disjunctions with `||` between them. -/
theorem or (hl : Renders .disjunction s n l) (hr : Renders .disjunction t n r) :
    Renders .disjunction (s ++ " || " ++ t) n (.or l r) := by
  obtain ⟨ts, l', hts, hnl, hdl, hl⟩ := hl
  obtain ⟨us, r', hus, hnr, hdr, hr⟩ := hr
  have hlex := lexes_between .or nofun hts hus
  have hn := (nests_append_iff hdl.paired.closed).mpr
    ⟨hnl, (nests_cons_iff (t := .or) (by decide) (by decide)).mpr hnr⟩
  have hchars : (s ++ " || " ++ t).toList =
      s.toList ++ ' ' :: (Token.or.text.toList ++ ' ' :: t.toList) := by simp [Token.text]
  cases hdr with
  | @disjunction us e rest hfirst hrest =>
    have hmore : ∀ p ∈ (us, e) :: rest, Derives .conjunction p.1 p.2 :=
      List.forall_mem_cons.mpr ⟨hfirst, hrest⟩
    have hderives := hdl.disjunction_append hmore
    rw [further_cons] at hderives
    refine ⟨_, _, hchars ▸ hlex, hn, hderives, (hl.or hr).trans ?_⟩
    exact alike_grouped_or (.refl _) rest

end Renders

/-- The text of an expression is, as the phrase that it is, that of an expression that is alike. -/
theorem Built.renders {e : Expr} (h : e.Built IsAtom) : Renders e.phrase e.print e.depth e := by
  induction h with
  | @atom a ha => exact ⟨_, _, ha.lexes, nests_atom _ a, .atom a, .refl _⟩
  | not _ ih => exact ih.negand.not
  | and _ _ ihl ihr =>
    exact (ihl.conjunct.mono (Nat.le_max_left _ _)).and (ihr.conjunct.mono (Nat.le_max_right _ _))
  | or _ _ ihl ihr =>
    exact (ihl.of_phrase.mono (Nat.le_max_left _ _)).or (ihr.of_phrase.mono (Nat.le_max_right _ _))

/-- The text of an expression is one of an expression that is alike. -/
theorem exists_sentence_print {e : Expr} (h : e = unspecified ∨ e.Built IsAtom) :
    ∃ e', Sentence e.print e' ∧ e.Alike e' := by
  rcases h with rfl | h
  · exact ⟨unspecified, ⟨[], .nil, .inl ⟨rfl, rfl⟩⟩, .refl _⟩
  · obtain ⟨ts, e', hts, -, hd, halike⟩ := h.renders.of_phrase
    exact ⟨e', ⟨ts, hts, .inr hd⟩, halike⟩

/-- The text of an expression is as deep as the expression. -/
theorem shallow_print_iff {e : Expr} (h : e = unspecified ∨ e.Built IsAtom) :
    Shallow e.print ↔ e.depth ≤ maxDepth := by
  rcases h with rfl | h
  · exact iff_of_true ((shallow_iff (s := "") .nil).mpr nests_nil) (Nat.zero_le _)
  · obtain ⟨ts, e', hts, hn, hd, halike⟩ := h.renders.of_phrase
    rw [shallow_iff hts]
    exact ⟨fun h => halike.depth ▸ hd.depth_le h, hn.mono⟩

/-- No text of an expression is less deep than the one that is printed. -/
theorem shallow_print_of_sentence {s : String} {e : Expr} (h : Sentence s e) (hs : Shallow s) :
    Shallow e.print := by
  rw [shallow_print_iff (built_of_sentence h)]
  obtain ⟨ts, hts, ⟨-, rfl⟩ | h⟩ := h
  · exact Nat.zero_le _
  · exact h.depth_le (hs ts hts)

/-- What is read from the text of an expression means the same and is printed in the same way. -/
theorem exists_parse_print {e : Expr} (h : e = unspecified ∨ e.Built IsAtom)
    (hs : Shallow e.print) :
    ∃ e', parse e.print = .ok e' ∧ (∀ has, e'.eval has = e.eval has) ∧ e'.print = e.print := by
  obtain ⟨e', hsentence, halike⟩ := exists_sentence_print h
  exact ⟨e', parse_eq_ok_iff.mpr ⟨hsentence, hs⟩, halike.eval, halike.print⟩

/-- **Texts keep their meaning.** From the text of an expression, unspecified or built of atoms that
can be written, an expression is read that is satisfied by the same labels, if never more
parentheses are open in the text than can be counted; otherwise the text is rejected. What is read
has the same text, so nothing more is lost when it is printed and read again. In particular the
label of a reservation that waits, if it has been read from a text, means the same to whoever reads
the demand that is reported. -/
theorem parse_print :
    (∀ e : Expr, e = unspecified ∨ e.Built IsAtom →
      (Shallow e.print → ∃ e', parse e.print = .ok e' ∧
        (∀ has, e'.eval has = e.eval has) ∧ e'.print = e.print ∧ parse e'.print = .ok e') ∧
      (¬Shallow e.print → parse e.print = .error .unbalancedParentheses)) ∧
    ∀ (q : Queue), ∀ item ∈ q.demand, ∃ r, q.entries.find? item.id = some r ∧
      ((∃ s, parse s = .ok r.label) → ∃ e', parse item.label = .ok e' ∧
        ∀ labels, e'.accepts labels = r.label.accepts labels) := by
  constructor
  · refine fun e h => ⟨fun hs => ?_, fun hdeep => ?_⟩
    · obtain ⟨e', hparse, heval, hprint⟩ := exists_parse_print h hs
      exact ⟨e', hparse, heval, hprint, by rw [hprint, hparse]⟩
    · obtain ⟨e', hsentence, -⟩ := exists_sentence_print h
      exact parse_of_not_shallow hsentence hdeep
  · intro q item hitem
    obtain ⟨⟨id, r⟩, hmem, rfl⟩ := List.mem_map.mp hitem
    refine ⟨r, (Queue.mem_pending.mp hmem).1, fun ⟨s, hs⟩ => ?_⟩
    obtain ⟨hsentence, hshallow⟩ := parse_eq_ok_iff.mp hs
    obtain ⟨e', hparse, heval, -⟩ := exists_parse_print (built_of_sentence hsentence)
      (shallow_print_of_sentence hsentence hshallow)
    exact ⟨e', hparse, fun labels => heval labels.contains⟩

/-- An expression whose text is `n` deep: each level negates a conjunction. -/
def tower : Nat → Expr
  | 0 => atom "a"
  | n + 1 => not (and (tower n) (atom "a"))

theorem depth_tower (n : Nat) : (tower n).depth = n := by
  induction n with
  | zero => rfl
  | succ n ih =>
    have hor : (tower n).isOr = false := by cases n <;> rfl
    have ha : (atom "a").isOr = false := rfl
    simp [tower, depth, isUnary, hor, ha, ih]

theorem built_tower (n : Nat) : (tower n).Built IsAtom := by
  induction n with
  | zero => exact .atom isAtom_a
  | succ n ih => exact .not (.and ih (.atom isAtom_a))

/-- The text of an expression is rejected when it is deeper than can be counted. -/
theorem parse_print_tower : (tower (maxDepth + 1)).Built IsAtom ∧
    parse (tower (maxDepth + 1)).print = .error .unbalancedParentheses := by
  have hbuilt := built_tower (maxDepth + 1)
  obtain ⟨e', hsentence, -⟩ := exists_sentence_print (.inr hbuilt)
  refine ⟨hbuilt, parse_of_not_shallow hsentence fun hs => ?_⟩
  rw [shallow_print_iff (.inr hbuilt), depth_tower] at hs
  exact Nat.not_succ_le_self maxDepth hs

/-- The grouping is lost, and so are parentheses that make no difference. -/
example : (parse "!(a) && (b && (c || !!d))").map print = .ok "!a && b && (c || !!d)" := rfl

end Expr

end NodeLending.Label
