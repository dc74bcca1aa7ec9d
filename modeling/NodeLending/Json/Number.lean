import NodeLending.Decimal.Shortest

/-!
# Numbers of JSON texts

A number without fraction and exponent that fits 64 bits, signed or unsigned, is an integer. Every
other number is a binary floating point number, and so is `-0`. Its value is computed from the
leading digits that fit 64 bits and a power of ten, with one rounding for each of the two; a number
beyond the largest finite one is out of range.

## Main definitions

* `Json.Number`: an integer or a bit pattern, with `Json.Number.render`.
* `Json.Numeral`: the characters of a number, cut into their parts.
* `Json.Numeral.number?`: the number that a numeral denotes.
-/

namespace NodeLending.Json

/-- A number. -/
inductive Number where
  /-- An integer between `-2 ^ 63` and `2 ^ 64 - 1`. -/
  | integer (i : Int)
  /-- A binary floating point number, by its bits. -/
  | real (bits : UInt64)
  deriving DecidableEq, Repr, Inhabited

/-- The characters of a number, cut into their parts. -/
structure Numeral where
  /-- Whether there is a minus sign. -/
  negative : Bool
  /-- The digits in front of the point. -/
  whole : List Char
  /-- The digits behind the point, if there is one. -/
  fraction : List Char
  /-- The sign and the digits of the exponent, if there is one. -/
  exponent : Option (Bool × List Char)
  /-- Whether there are only a sign and digits. -/
  plain : Bool
  deriving DecidableEq, Repr

namespace Numeral

/-- The value of a digit. -/
def digitValue (c : Char) : Nat := c.toNat - '0'.toNat

/-- The value of a list of digits behind a number that has been read already. -/
def value (acc : Nat) (digits : List Char) : Nat :=
  digits.foldl (fun n c => n * 10 + digitValue c) acc

/-- The largest significand that is kept. -/
def bound : Nat := UInt64.size - 1

/-- The whole part: digits enter the significand while it fits, and every later one only raises
the power of ten. -/
def wholePart : Nat → Nat → List Char → Nat × Nat
  | s, e, [] => (s, e)
  | s, e, c :: cs =>
    if e = 0 ∧ s * 10 + digitValue c ≤ bound then wholePart (s * 10 + digitValue c) 0 cs
    else wholePart s (e + 1) cs

/-- The fraction: digits enter the significand while it fits, and all later ones are dropped. -/
def fractionPart : Nat → Int → List Char → Nat × Int
  | s, e, [] => (s, e)
  | s, e, c :: cs =>
    if s * 10 + digitValue c ≤ bound then fractionPart (s * 10 + digitValue c) (e - 1) cs
    else (s, e)

/-- The largest power that is told apart from larger ones. -/
def powerBound : Nat := 0x7FFFFFFF

/-- `f / 10 ^ 308` as often as the power of ten stays below `-308`. -/
def scaleDown : Nat → Float → Int → Float × Int
  | 0, f, e => (f, e)
  | fuel + 1, f, e =>
    if e < -308 ∧ f != 0 then scaleDown fuel (f / Float.ofScientific 1 false 308) (e + 308)
    else (f, e)

/-- The floating point number of a significand and a power of ten, unless it is out of range. -/
def scale? (significand : Nat) (power : Int) : Option Float :=
  let f := (UInt64.ofNat significand).toFloat
  if power > 308 then
    if significand = 0 then some f else none
  else if power ≥ 0 then
    let g := f * Float.ofScientific 1 false power.toNat
    if g.isInf then none else some g
  else
    let (g, e) := scaleDown 20 f power
    if e < -308 then some g else some (g / Float.ofScientific 1 false (-e).toNat)

/-- The floating point number of a numeral, unless it is out of range. -/
def real? (n : Numeral) : Option UInt64 :=
  let (s, e) := wholePart 0 0 n.whole
  let (s, e) := fractionPart s (Int.ofNat e) n.fraction
  let signed (f : Float) : UInt64 := (if n.negative then -f else f).toBits
  match n.exponent with
  | none => (scale? s e).map signed
  | some (down, digits) =>
    let p := value 0 digits
    if p > powerBound then
      if s = 0 ∨ down then some (signed 0) else none
    else
      (scale? s (if down then e - p else e + p)).map signed

/-- The number that a numeral denotes, unless it is out of range. -/
def number? (n : Numeral) : Option Number :=
  let v := value 0 n.whole
  if n.plain ∧ ¬n.negative ∧ v ≤ bound then some (.integer v)
  else if n.plain ∧ n.negative ∧ 0 < v ∧ v ≤ UInt64.size / 2 then some (.integer (-v))
  else n.real?.map .real

end Numeral

namespace Number

/-- The digits of a floating point number with its point or exponent. Between `10 ^ -5` and
`10 ^ 16` the point is written in its place, and otherwise behind the first digit. -/
def layout (digits : List Char) (power : Int) : List Char :=
  let point := (digits.length : Int) + power
  if 0 ≤ power ∧ point ≤ 16 then digits ++ List.replicate power.toNat '0' ++ ['.', '0']
  else if 0 < point ∧ point ≤ 16 then
    digits.take point.toNat ++ '.' :: digits.drop point.toNat
  else if -5 < point ∧ point ≤ 0 then
    '0' :: '.' :: (List.replicate (-point).toNat '0' ++ digits)
  else
    let tail := 'e' :: (toString (point - 1)).toList
    match digits with
    | [d] => d :: tail
    | d :: ds => d :: '.' :: (ds ++ tail)
    | [] => tail

/-- The text of a floating point number. -/
def renderReal (bits : UInt64) : List Char :=
  let magnitude :=
    match Decimal.Positive64.ofBits? bits with
    | some x =>
      let (digits, power) := Decimal.shortest x
      layout (Nat.toDigits 10 digits) power
    | none => ['0', '.', '0']
  if bits.toNat ≥ UInt64.size / 2 then '-' :: magnitude else magnitude

/-- The text of a number. -/
def render : Number → List Char
  | integer i => if i < 0 then '-' :: Nat.toDigits 10 i.natAbs else Nat.toDigits 10 i.natAbs
  | real bits => renderReal bits

end Number

end NodeLending.Json
