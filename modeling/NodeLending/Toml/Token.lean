import NodeLending.Text.Hex

/-!
# Tokens of TOML documents

A document falls into tokens without regard to what they are used for: the signs, the blanks, the
line ends, quoted texts, and atoms, which are the runs of all other characters. Comments are
dropped. The reader takes one character at a time; the first one that fits nowhere becomes the
token `bad`, and nothing behind it is read.

A quoted text starts with one or three quotes of either kind. In one of double quotes a backslash
starts an escape. A text of three quotes may hold line ends and up to two quotes in a row, also
directly in front of the three that end it; a line end directly behind the three that start it is
dropped.

## Main definitions

* `Toml.Token`, and `Toml.Token.ofChars`.
-/

namespace NodeLending.Toml

/-- A token. -/
inductive Token where
  /-- A run of characters without meaning of their own. -/
  | atom (chars : List Char)
  /-- A quoted text, and whether it may hold line ends. -/
  | text (s : String) (multiline : Bool)
  /-- The sign `.`. -/
  | dot
  /-- The sign `=`. -/
  | equals
  /-- The sign `,`. -/
  | comma
  /-- The sign `[`. -/
  | openBracket
  /-- The sign `]`. -/
  | closeBracket
  /-- The opening brace. -/
  | openBrace
  /-- The closing brace. -/
  | closeBrace
  /-- A space or a tab. -/
  | blank (c : Char)
  /-- The end of a line. -/
  | newline
  /-- No token starts or goes on here. -/
  | bad
  deriving DecidableEq, Repr

namespace Token

/-- A quoted text that is being read. -/
structure Quoted where
  /-- The kind of quote. -/
  quote : Char
  /-- Whether three quotes started it. -/
  multiline : Bool
  /-- The characters so far, last one first. -/
  chars : List Char
  /-- How many quotes have been read in a row. -/
  closing : Nat
  deriving DecidableEq, Repr

/-- Where the reader stands. -/
inductive Mode where
  /-- Between two tokens. -/
  | between
  /-- Behind a bad token. -/
  | stopped
  /-- Inside an atom; its characters so far, last one first. -/
  | atom (run : List Char)
  /-- Inside a comment. -/
  | comment
  /-- Behind a carriage return that a line feed has to follow. -/
  | carriage
  /-- Behind one or two quotes that may start a text of three quotes. -/
  | opening (quote : Char) (count : Nat)
  /-- Behind the three quotes that start a text. -/
  | fresh (q : Quoted)
  /-- Inside a text. -/
  | quoted (q : Quoted)
  /-- Inside a text, behind a carriage return that a line feed has to follow. -/
  | quotedCarriage (q : Quoted)
  /-- Behind a backslash. -/
  | escape (q : Quoted)
  /-- Inside a numeric escape: how many digits have to follow, and the value so far. -/
  | unicode (q : Quoted) (left value : Nat)
  /-- Behind a backslash that takes away the blanks and line ends which follow; whether a line end
  has been read, and whether a carriage return has just been read. -/
  | gap (q : Quoted) (ended carriage : Bool)
  deriving Repr

/-- The token of a text that has been read to its end. -/
def Quoted.close (q : Quoted) : Token := .text (String.ofList q.chars.reverse) q.multiline

/-- Put the quotes that have been read in a row into the text. -/
def Quoted.settle (q : Quoted) : Quoted :=
  { q with chars := List.replicate q.closing q.quote ++ q.chars, closing := 0 }

/-- Put a character into the text. -/
def Quoted.push (q : Quoted) (c : Char) : Quoted :=
  { q.settle with chars := c :: q.settle.chars }

/-- The text when its last three quotes have been read; those in front of them belong to it. -/
def Quoted.closeAfter (q : Quoted) : Token :=
  { q with chars := List.replicate (q.closing - 3) q.quote ++ q.chars }.close

/-- A text in which nothing has been read. -/
def Quoted.start (quote : Char) (multiline : Bool) : Quoted := ⟨quote, multiline, [], 0⟩

/-- The tokens that are written with one character. -/
def sign? : Char → Option Token
  | '.' => some .dot
  | '=' => some .equals
  | ',' => some .comma
  | '[' => some .openBracket
  | ']' => some .closeBracket
  | '\x7b' => some .openBrace
  | '\x7d' => some .closeBrace
  | ' ' => some (.blank ' ')
  | '\t' => some (.blank '\t')
  | '\n' => some .newline
  | _ => none

/-- Whether a character may stand in a comment or inside a text. -/
def isPlain (c : Char) : Bool := c == '\t' || (0x20 ≤ c.toNat && c.toNat != 0x7F)

/-- Read a character where a token may start. -/
def start (c : Char) : List Token × Mode :=
  match sign? c with
  | some t => ([t], .between)
  | none =>
    if c = '#' then ([], .comment)
    else if c = '\r' then ([], .carriage)
    else if c = '"' ∨ c = '\x27' then ([], .opening c 1)
    else ([], .atom [c])

/-- The token of an atom. -/
def ofRun (run : List Char) : Token := .atom run.reverse

/-- Whether a character ends an atom. -/
def endsAtom (c : Char) : Bool :=
  (sign? c).isSome || c == '#' || c == '\r' || c == '"' || c == '\x27'

/-- Read a character inside a text. -/
def inText (q : Quoted) (c : Char) : List Token × Mode :=
  if c = q.quote then
    if ¬q.multiline then ([q.close], .between)
    else if q.closing = 4 then ([{ q with closing := 5 }.closeAfter], .between)
    else ([], .quoted { q with closing := q.closing + 1 })
  else if q.closing ≥ 3 then
    let (ts, m) := start c
    (q.closeAfter :: ts, m)
  else if c = '\\' ∧ q.quote = '"' then ([], .escape q.settle)
  else if c = '\n' ∧ q.multiline then ([], .quoted (q.push c))
  else if c = '\r' ∧ q.multiline then ([], .quotedCarriage (q.push c))
  else if isPlain c then ([], .quoted (q.push c))
  else ([.bad], .stopped)

/-- The character of a one-letter escape. -/
def escaped? : Char → Option Char
  | '"' => some '"'
  | '\\' => some '\\'
  | 'b' => some (Char.ofNat 8)
  | 't' => some '\t'
  | 'n' => some '\n'
  | 'f' => some (Char.ofNat 12)
  | 'r' => some '\r'
  | 'e' => some (Char.ofNat 27)
  | _ => none

/-- How many digits a numeric escape has. -/
def escapeLength? : Char → Option Nat
  | 'x' => some 2
  | 'u' => some 4
  | 'U' => some 8
  | _ => none

/-- Read the character behind a backslash. -/
def inEscape (q : Quoted) (c : Char) : List Token × Mode :=
  match escaped? c, escapeLength? c with
  | some e, _ => ([], .quoted (q.push e))
  | none, some n => ([], .unicode q n 0)
  | none, none =>
    if ¬q.multiline then ([.bad], .stopped)
    else if c = ' ' ∨ c = '\t' then ([], .gap q false false)
    else if c = '\n' then ([], .gap q true false)
    else if c = '\r' then ([], .gap q false true)
    else ([.bad], .stopped)

/-- Read a character where blanks and line ends are taken away. -/
def inGap (q : Quoted) (ended carriage : Bool) (c : Char) : List Token × Mode :=
  if c = '\n' then ([], .gap q true false)
  else if carriage then ([.bad], .stopped)
  else if c = ' ' ∨ c = '\t' then ([], .gap q ended false)
  else if c = '\r' then ([], .gap q ended true)
  else if ended then inText q c
  else ([.bad], .stopped)

/-- Read one character. -/
def step (m : Mode) (c : Char) : List Token × Mode :=
  match m with
  | .between => start c
  | .stopped => ([], .stopped)
  | .atom run =>
    if endsAtom c then
      let (ts, m) := start c
      (ofRun run :: ts, m)
    else ([], .atom (c :: run))
  | .comment =>
    if c = '\n' then ([.newline], .between)
    else if c = '\r' then ([], .carriage)
    else if isPlain c then ([], .comment)
    else ([.bad], .stopped)
  | .carriage => if c = '\n' then ([.newline], .between) else ([.bad], .stopped)
  | .opening quote count =>
    if c = quote then
      if count = 1 then ([], .opening quote 2) else ([], .fresh (.start quote true))
    else if count = 1 then inText (.start quote false) c
    else
      let (ts, m) := start c
      ((Quoted.start quote false).close :: ts, m)
  | .fresh q =>
    if c = '\n' then ([], .quoted q)
    else if c = '\r' then ([], .quotedCarriage q)
    else inText q c
  | .quoted q => inText q c
  | .quotedCarriage q =>
    if c = '\n' then
      if q.chars = [] then ([], .quoted q) else ([], .quoted (q.push c))
    else ([.bad], .stopped)
  | .escape q => inEscape q c
  | .unicode q left value =>
    match Text.hexValue? c with
    | none => ([.bad], .stopped)
    | some d =>
      let value := value * 16 + d
      if left ≤ 1 then
        if value.isValidChar then ([], .quoted (q.push (Char.ofNat value)))
        else ([.bad], .stopped)
      else ([], .unicode q (left - 1) value)
  | .gap q ended carriage => inGap q ended carriage c

/-- The tokens of what is unfinished when the document ends. -/
def finish : Mode → List Token
  | .between | .stopped | .comment => []
  | .atom run => [ofRun run]
  | .opening quote 2 => [(Quoted.start quote false).close]
  | .quoted q => [if q.closing ≥ 3 then q.closeAfter else .bad]
  | _ => [.bad]

/-- The tokens of the characters that follow in a mode. -/
def ofMode (m : Mode) : List Char → List Token
  | [] => finish m
  | c :: cs => (step m c).1 ++ ofMode (step m c).2 cs

/-- The tokens of a document, without a byte order mark in front. -/
def ofChars (cs : List Char) : List Token :=
  match cs with
  | c :: rest => if c.toNat = 0xFEFF then ofMode .between rest else ofMode .between cs
  | [] => []

end Token

end NodeLending.Toml
