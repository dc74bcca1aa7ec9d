import NodeLending.Text.Blank

/-!
# Tokens of label expressions

A text falls into tokens: the signs `&&`, `||` and `!`, the two parentheses, and atoms, which are
the maximal runs of characters that are neither blank nor one of `(`, `)`, `!`, `&` and `|`.
Blanks separate tokens and are skipped. The only text without tokens is one where an `&` or `|`
is not doubled.

## Main definitions

* `Label.Token`, `Label.Error`: tokens, and what can be wrong with a text.
* `Label.tokens`: the tokens of a text.

## Main results

* `Label.tokensFrom_cons_of_isAtomChar`: the characters of an atom are read one after the other.
-/

namespace NodeLending.Label

/-- A token of a label expression. -/
inductive Token where
  /-- A label. -/
  | atom (label : String)
  /-- The sign `&&`. -/
  | and
  /-- The sign `||`. -/
  | or
  /-- The sign `!`. -/
  | not
  /-- An opening parenthesis. -/
  | opening
  /-- A closing parenthesis. -/
  | closing
  deriving DecidableEq, Repr

/-- The token as it is written. -/
def Token.text : Token → String
  | .atom a => a
  | .and => "&&"
  | .or => "||"
  | .not => "!"
  | .opening => "("
  | .closing => ")"

/-- Why a text is no label expression. -/
inductive Error where
  /-- The parentheses do not pair up. -/
  | unbalancedParentheses
  /-- A token stands where it cannot. -/
  | unexpected (found : String)
  /-- The text stops where something has to follow. -/
  | unexpectedEnd
  /-- An `&` or `|` stands alone. -/
  | strayOperator (c : Char)
  deriving DecidableEq, Repr

/-- The wording of an error. -/
def Error.message : Error → String
  | .unbalancedParentheses => "unbalanced parentheses in label expression"
  | .unexpected found => s!"unexpected '{found}' in label expression"
  | .unexpectedEnd => "label expression ends unexpectedly"
  | .strayOperator c => s!"stray '{c}' in label expression, expected '{c}{c}'"

/-- The tokens that are written with one character. -/
def sign? : Char → Option Token
  | '(' => some .opening
  | ')' => some .closing
  | '!' => some .not
  | _ => none

/-- Whether a character may stand in an atom. -/
def isAtomChar (c : Char) : Bool :=
  !(Text.isBlank c || c == '(' || c == ')' || c == '!' || c == '&' || c == '|')

/-- The atom that has been read, last character first, in front of later tokens. -/
def withAtom (run : List Char) (later : List Token) : List Token :=
  if run.isEmpty then later else .atom (String.ofList run.reverse) :: later

/-- The tokens of the characters that follow an unfinished atom. -/
def tokensFrom (run : List Char) : List Char → Except Error (List Token)
  | [] => .ok (withAtom run [])
  | '&' :: '&' :: cs => (tokensFrom [] cs).map fun ts => withAtom run (.and :: ts)
  | '|' :: '|' :: cs => (tokensFrom [] cs).map fun ts => withAtom run (.or :: ts)
  | c :: cs =>
    if c = '&' ∨ c = '|' then .error (.strayOperator c)
    else if Text.isBlank c then (tokensFrom [] cs).map (withAtom run)
    else
      match sign? c with
      | some t => (tokensFrom [] cs).map fun ts => withAtom run (t :: ts)
      | none => tokensFrom (c :: run) cs

/-- The tokens of a text. -/
def tokens (s : String) : Except Error (List Token) := tokensFrom [] s.toList

/-- A character that may stand in an atom goes on with the atom before it. -/
theorem tokensFrom_cons_of_isAtomChar {c : Char} (h : isAtomChar c = true) (run cs : List Char) :
    tokensFrom run (c :: cs) = tokensFrom (c :: run) cs := by
  simp only [isAtomChar, Bool.not_eq_true', Bool.or_eq_false_iff, beq_eq_false_iff_ne] at h
  obtain ⟨⟨⟨⟨⟨hb, hopen⟩, hclose⟩, hnot⟩, hand⟩, hor⟩ := h
  have hs : sign? c = none := by
    unfold sign?
    split <;> simp_all
  rw [tokensFrom]
  · simp [hand, hor, hb, hs]
  · rintro cs' rfl
    exact fun _ => hand rfl
  · rintro cs' rfl
    exact fun _ => hor rfl

end NodeLending.Label
