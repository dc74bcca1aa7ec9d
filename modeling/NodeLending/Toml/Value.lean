import NodeLending.Decode.Mismatch
import NodeLending.Keyed
import NodeLending.Text.Hex
import NodeLending.Calendar

/-!
# TOML values

Tables list their entries by ascending key. The digits of a real number are not kept, because
nothing that is read from a document asks for them; what is kept is whether it is finite as a
binary floating point number of 64 bits. A date or time is kept as its text.

## Main definitions

* `Toml.Value`: the values.
* `Toml.Value.ofScalar?`: the value that is written without quotes.
-/

namespace NodeLending.Toml

/-- A value of a document. -/
inductive Value where
  /-- A text. -/
  | text (s : String)
  /-- An integer. -/
  | integer (i : Int)
  /-- A real number; whether it is in range. -/
  | real (inRange : Bool)
  /-- A truth value. -/
  | boolean (b : Bool)
  /-- A date, a time or both. -/
  | datetime (s : String)
  /-- A list of values. -/
  | array (items : List Value)
  /-- Named values. -/
  | table (entries : List (String × Value))
  deriving Repr, Inhabited

namespace Value

/-! ### Integers -/

/-- The digits of a numeral in which an underscore may stand between two digits. -/
def separated (isDigit : Char → Bool) : List Char → Option (List Char)
  | [] => none
  | [c] => if isDigit c then some [c] else none
  | c :: '_' :: rest => if isDigit c then (separated isDigit rest).map (c :: ·) else none
  | c :: rest => if isDigit c then (separated isDigit rest).map (c :: ·) else none

/-- The number that digits of a base denote. -/
def ofDigits (base : Nat) (digits : List Char) : Nat :=
  digits.foldl (fun n c => n * base + (Text.hexValue? c).getD 0) 0

/-- A numeral of a base with a sign of its own in front. -/
def radix? : List Char → Option Int
  | '0' :: 'x' :: rest =>
    (separated (fun c => (Text.hexValue? c).isSome) rest).map fun ds => ofDigits 16 ds
  | '0' :: 'o' :: rest =>
    (separated (fun c => '0' ≤ c && c ≤ '7') rest).map fun ds => ofDigits 8 ds
  | '0' :: 'b' :: rest =>
    (separated (fun c => c == '0' || c == '1') rest).map fun ds => ofDigits 2 ds
  | _ => none

/-- The sign in front of a number, and the rest. -/
def signed : List Char → Bool × List Char
  | '-' :: rest => (true, rest)
  | '+' :: rest => (false, rest)
  | cs => (false, cs)

/-- The digits of a decimal numeral without a zero in front. -/
def decimal? (cs : List Char) : Option (List Char) :=
  match separated Char.isDigit cs with
  | some ('0' :: _ :: _) => none
  | ds => ds

/-- An integer of any size. -/
def integer? (cs : List Char) : Option Value :=
  match radix? cs with
  | some i => some (.integer i)
  | none => do
    let (negative, rest) := signed cs
    let n := ofDigits 10 (← decimal? rest)
    return .integer (if negative then -(n : Int) else n)

/-! ### Real numbers -/

/-- Cut a text in front of the first character that `p` accepts. -/
def cut (p : Char → Bool) (cs : List Char) : List Char × List Char :=
  (cs.takeWhile fun c => !p c, cs.dropWhile fun c => !p c)

/-- Whether `n * 10 ^ e` is below the bound from which on a number is rounded to infinity. -/
def isFinite (n : Nat) (e : Int) : Bool :=
  let size := ((Nat.toDigits 10 n).length : Int) + e
  if n = 0 ∨ size < 300 then true
  else if size > 320 then false
  else if e ≥ 0 then n * Nat.pow 10 e.toNat < Nat.pow 2 1024 - Nat.pow 2 970
  else n < (Nat.pow 2 1024 - Nat.pow 2 970) * Nat.pow 10 (-e).toNat

/-- The value of an exponent, sign included. -/
def exponent? : List Char → Option Int
  | [] => some 0
  | _ :: cs => do
    let (negative, rest) := signed cs
    let n := ofDigits 10 (← separated Char.isDigit rest)
    pure (if negative then -(n : Int) else n)

/-- The digits behind the point. -/
def fraction? : List Char → Option (List Char)
  | [] => some []
  | _ :: cs => separated Char.isDigit cs

/-- A real number. -/
def real? (cs : List Char) : Option Value := do
  let (_, rest) := signed cs
  if rest = ['i', 'n', 'f'] ∨ rest = ['n', 'a', 'n'] then return .real true
  let (mantissa, e) := cut (fun c => c == 'e' || c == 'E') rest
  let (whole, fraction) := cut (· == '.') mantissa
  let ds ← decimal? whole
  let fs ← fraction? fraction
  let e ← exponent? e
  return .real (isFinite (ofDigits 10 (ds ++ fs)) (e - fs.length))

/-! ### Dates and times -/

/-- The number that a fixed count of digits denotes, and the rest. -/
def fixed (count : Nat) (cs : List Char) : Option (Nat × List Char) :=
  let ds := cs.take count
  if ds.length = count ∧ ds.all Char.isDigit then some (ofDigits 10 ds, cs.drop count) else none

/-- Pass over a character. -/
def skip (c : Char) : List Char → Option (List Char)
  | d :: rest => if c = d then some rest else none
  | [] => none

/-- A date, and the rest. -/
def date? (cs : List Char) : Option (List Char × List Char) := do
  let (y, rest) ← fixed 4 cs
  let (m, rest) ← fixed 2 (← skip '-' rest)
  let (d, rest) ← fixed 2 (← skip '-' rest)
  if Calendar.Date.isValid ⟨y, m, d⟩ then some (cs.take 10, rest) else none

/-- The digits behind the seconds, without zeros at the end and cut after nine. -/
def fractionText (ds : List Char) : List Char :=
  match ((ds.take 9).reverse.dropWhile (· == '0')).reverse with
  | [] => []
  | ds => '.' :: ds

/-- A time of day, and the rest; the seconds may be left out. -/
def time? (cs : List Char) : Option (List Char × List Char) := do
  let (h, rest) ← fixed 2 cs
  let (m, rest) ← fixed 2 (← skip ':' rest)
  if ¬(h ≤ 23 ∧ m ≤ 59) then none
  match rest with
  | ':' :: rest => do
    let (s, after) ← fixed 2 rest
    if s > 60 then none
    match after with
    | '.' :: digits =>
      let ds := digits.takeWhile Char.isDigit
      if ds.isEmpty then none
      some (cs.take 8 ++ fractionText ds, digits.dropWhile Char.isDigit)
    | _ => some (cs.take 8, after)
  | _ => some (cs.take 5 ++ [':', '0', '0'], rest)

/-- An offset from universal time; it may be left out. -/
def offset? (cs : List Char) : Option (List Char) :=
  match cs with
  | [] => some []
  | ['Z'] | ['z'] => some ['Z']
  | c :: rest => do
    if ¬(c = '+' ∨ c = '-') then none
    let (h, after) ← fixed 2 rest
    let (m, after) ← fixed 2 (← skip ':' after)
    if after.isEmpty ∧ m ≤ 59 ∧ h * 60 + m ≤ 1440 then some cs else none

/-- A date, a time or both. -/
def datetime? (cs : List Char) : Option Value := do
  match date? cs with
  | some (date, []) => some (.datetime (String.ofList date))
  | some (date, c :: rest) =>
    if ¬(c = 'T' ∨ c = 't' ∨ c = ' ') then none
    let (time, rest) ← time? rest
    let offset ← offset? rest
    some (.datetime (String.ofList (date ++ 'T' :: (time ++ offset))))
  | none =>
    let (time, rest) ← time? cs
    if rest.isEmpty then some (.datetime (String.ofList time)) else none

/-- The value that is written without quotes. -/
def ofScalar? (cs : List Char) : Option Value :=
  if cs = ['t', 'r', 'u', 'e'] then some (.boolean true)
  else if cs = ['f', 'a', 'l', 's', 'e'] then some (.boolean false)
  else integer? cs <|> real? cs <|> datetime? cs

/-- Whether a date alone is written here, which a blank and a time may follow. -/
def isDate (cs : List Char) : Bool :=
  match date? cs with
  | some (_, []) => true
  | _ => false

end Value

end NodeLending.Toml
