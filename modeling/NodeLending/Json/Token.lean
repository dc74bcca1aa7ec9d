import NodeLending.Json.Number
import NodeLending.Text.Hex

/-!
# Tokens of JSON texts

A text is read one character at a time. The reader is either between two tokens or inside one, and
what it is inside of decides what the next character means; a number ends where a character stands
that cannot continue it. The first character that fits nowhere becomes the last token, `bad`, and
everything behind it is left unread. A string may hold an escape that denotes no character, which
is half of a surrogate pair; such a string is one token without a text.

## Main definitions

* `Json.Token`: the tokens.
* `Json.Token.ofChars`: the tokens of a text.
-/

namespace NodeLending.Json

/-- A token. -/
inductive Token where
  /-- The sign `[`. -/
  | openArray
  /-- The sign `]`. -/
  | closeArray
  /-- The opening brace. -/
  | openObject
  /-- The closing brace. -/
  | closeObject
  /-- The sign `,`. -/
  | comma
  /-- The sign `:`. -/
  | colon
  /-- The word `null`. -/
  | null
  /-- One of the words `true` and `false`. -/
  | bool (b : Bool)
  /-- A number; without a value if it is out of range. -/
  | number (n : Option Number)
  /-- A string; without a text if half of a surrogate pair stands alone in it. -/
  | text (s : Option String)
  /-- No token starts or goes on here. -/
  | bad
  deriving DecidableEq, Repr

namespace Token

/-- How far a number has been read. -/
inductive NumberPart where
  /-- The minus sign. -/
  | minus
  /-- A leading zero, behind which no digit may stand. -/
  | zero
  /-- The digits in front of the point. -/
  | whole
  /-- The point. -/
  | point
  /-- The digits behind the point. -/
  | fraction
  /-- The letter of the exponent. -/
  | letter
  /-- The sign of the exponent. -/
  | sign
  /-- The digits of the exponent. -/
  | exponent
  deriving DecidableEq, Repr

/-- Whether a number may end here. -/
def NumberPart.mayEnd : NumberPart → Bool
  | zero | whole | fraction | exponent => true
  | _ => false

/-- A string that is being read. -/
structure OpenText where
  /-- The characters so far, last one first. -/
  chars : List Char
  /-- No half of a surrogate pair has been left alone. -/
  sound : Bool
  /-- The first half of a surrogate pair whose second half has to follow. -/
  half : Option Nat
  deriving DecidableEq, Repr

/-- Where the reader stands. -/
inductive Mode where
  /-- Between two tokens. -/
  | between
  /-- Behind a bad token. -/
  | stopped
  /-- Inside a word; the letters that have to follow, and its token. -/
  | word (left : List Char) (token : Token)
  /-- Inside a number; its parts so far, with digits in reverse. -/
  | number (part : NumberPart) (numeral : Numeral)
  /-- Inside a string. -/
  | text (t : OpenText)
  /-- Behind a backslash. -/
  | escape (t : OpenText)
  /-- Inside a numeric escape: how many digits have to follow, and the value so far. -/
  | unicode (t : OpenText) (left : Nat) (value : Nat)
  deriving Repr

/-- Put a character into the string. A first half that is still open has been left alone. -/
def OpenText.push (t : OpenText) (c : Char) : OpenText :=
  ⟨c :: t.chars, t.sound && t.half.isNone, none⟩

/-- Put the unit of a numeric escape into the string, pairing up two surrogate halves. -/
def OpenText.pushUnit (t : OpenText) (u : Nat) : OpenText :=
  if 0xD800 ≤ u ∧ u ≤ 0xDBFF then ⟨t.chars, t.sound && t.half.isNone, some u⟩
  else if 0xDC00 ≤ u ∧ u ≤ 0xDFFF then
    match t.half with
    | some h => ⟨Char.ofNat ((h - 0xD800) * 0x400 + (u - 0xDC00) + 0x10000) :: t.chars, t.sound, none⟩
    | none => ⟨t.chars, false, none⟩
  else t.push (Char.ofNat u)

/-- The token of a string that has been read to its end. -/
def OpenText.close (t : OpenText) : Token :=
  .text (if t.sound && t.half.isNone then some (String.ofList t.chars.reverse) else none)

/-- The character of a one-letter escape. -/
def escaped? : Char → Option Char
  | '"' => some '"'
  | '\\' => some '\\'
  | '/' => some '/'
  | 'b' => some (Char.ofNat 8)
  | 'f' => some (Char.ofNat 12)
  | 'n' => some '\n'
  | 'r' => some '\r'
  | 't' => some '\t'
  | _ => none

/-- A number that starts. -/
def startNumber (negative : Bool) (part : NumberPart) (whole : List Char) : Mode :=
  .number part ⟨negative, whole, [], none, true⟩

/-- The next part of a number, if the character can continue it. -/
def continueNumber (part : NumberPart) (n : Numeral) (c : Char) : Option (NumberPart × Numeral) :=
  match part with
  | .minus =>
    if c = '0' then some (.zero, { n with whole := [c] })
    else if c.isDigit then some (.whole, { n with whole := [c] })
    else none
  | .zero | .whole =>
    if part = .whole ∧ c.isDigit then some (.whole, { n with whole := c :: n.whole })
    else if c = '.' then some (.point, { n with plain := false })
    else if c = 'e' ∨ c = 'E' then
      some (.letter, { n with plain := false, exponent := some (false, []) })
    else none
  | .point | .fraction =>
    if c.isDigit then some (.fraction, { n with fraction := c :: n.fraction })
    else if part = .fraction ∧ (c = 'e' ∨ c = 'E') then
      some (.letter, { n with exponent := some (false, []) })
    else none
  | .letter =>
    if c = '+' then some (.sign, n)
    else if c = '-' then some (.sign, { n with exponent := some (true, []) })
    else if c.isDigit then
      some (.exponent, { n with exponent := n.exponent.map fun e => (e.1, c :: e.2) })
    else none
  | .sign | .exponent =>
    if c.isDigit then
      some (.exponent, { n with exponent := n.exponent.map fun e => (e.1, c :: e.2) })
    else none

/-- The numeral with its digits in the other direction. -/
def flipDigits (n : Numeral) : Numeral :=
  ⟨n.negative, n.whole.reverse, n.fraction.reverse,
    n.exponent.map (fun e => (e.1, e.2.reverse)), n.plain⟩

/-- The token of a number that has been read to its end. -/
def closeNumber (n : Numeral) : Token := .number (flipDigits n).number?

/-- The token that a character is, or the token that it starts. -/
def start (c : Char) : List Token × Mode :=
  if c = ' ' ∨ c = '\n' ∨ c = '\t' ∨ c = '\r' then ([], .between)
  else if c = '[' then ([.openArray], .between)
  else if c = ']' then ([.closeArray], .between)
  else if c = '\x7b' then ([.openObject], .between)
  else if c = '\x7d' then ([.closeObject], .between)
  else if c = ',' then ([.comma], .between)
  else if c = ':' then ([.colon], .between)
  else if c = '"' then ([], .text ⟨[], true, none⟩)
  else if c = 'n' then ([], .word ['u', 'l', 'l'] .null)
  else if c = 't' then ([], .word ['r', 'u', 'e'] (.bool true))
  else if c = 'f' then ([], .word ['a', 'l', 's', 'e'] (.bool false))
  else if c = '-' then ([], startNumber true .minus [])
  else if c = '0' then ([], startNumber false .zero [c])
  else if c.isDigit then ([], startNumber false .whole [c])
  else ([.bad], .stopped)

/-- Read one character. -/
def step : Mode → Char → List Token × Mode
  | .between, c => start c
  | .stopped, _ => ([], .stopped)
  | .word left token, c =>
    match left with
    | [x] => if c = x then ([token], .between) else ([.bad], .stopped)
    | x :: rest => if c = x then ([], .word rest token) else ([.bad], .stopped)
    | [] => ([.bad], .stopped)
  | .number part n, c =>
    match continueNumber part n c with
    | some (part', n') => ([], .number part' n')
    | none =>
      if part.mayEnd ∧ ¬(part = .zero ∧ c.isDigit) then
        match start c with
        | (ts, m) => (closeNumber n :: ts, m)
      else ([.bad], .stopped)
  | .text t, c =>
    if c = '"' then ([t.close], .between)
    else if c = '\\' then ([], .escape t)
    else if c.toNat < 32 then ([.bad], .stopped)
    else ([], .text (t.push c))
  | .escape t, c =>
    if c = 'u' then ([], .unicode t 4 0)
    else
      match escaped? c with
      | some x => ([], .text (t.push x))
      | none => ([.bad], .stopped)
  | .unicode t left value, c =>
    match Text.hexValue? c with
    | some d =>
      if left ≤ 1 then ([], .text (t.pushUnit (value * 16 + d)))
      else ([], .unicode t (left - 1) (value * 16 + d))
    | none => ([.bad], .stopped)

/-- What is left to say when no character is left. -/
def finish : Mode → List Token
  | .between | .stopped => []
  | .number part n => if part.mayEnd then [closeNumber n] else [.bad]
  | _ => [.bad]

/-- The tokens of the characters that follow in a mode. -/
def ofMode (m : Mode) : List Char → List Token
  | [] => finish m
  | c :: cs => (step m c).1 ++ ofMode (step m c).2 cs

/-- The tokens of a text. -/
def ofChars (cs : List Char) : List Token := ofMode .between cs

end Token

end NodeLending.Json
