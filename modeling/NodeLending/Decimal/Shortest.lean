/-!
# The shortest decimal of a binary number

A binary floating point number with a significand of 53 bits stands for every real that rounds to
it. Those reals form an interval around the number, whose ends belong to it when the significand
is even. The decimal that is printed has the fewest digits that a decimal in this interval can
have and, among those, lies nearest to the number. The search runs over exact natural numbers:
for each digit count it looks at the two neighbours of the number on that decimal grid.

## Main definitions

* `Decimal.Positive64`: a positive finite binary number of 64 bits, `significand * 2 ^ exponent`.
* `Decimal.shortest`: its shortest decimal, as digits and the power of ten of the last one.
-/

namespace NodeLending.Decimal

/-- A positive finite binary floating point number, `significand * 2 ^ exponent`. -/
structure Positive64 where
  /-- The significand, below `2 ^ 53`. -/
  significand : Nat
  /-- The power of two it is scaled by. -/
  exponent : Int
  /-- Whether the next smaller number is only half as far away as the next larger one. -/
  narrowBelow : Bool
  deriving DecidableEq, Repr

/-- The number of a bit pattern without its sign, unless the pattern is zero, infinite or no
number. -/
def Positive64.ofBits? (bits : UInt64) : Option Positive64 :=
  let field : Nat := (bits.toNat / Nat.pow 2 52) % Nat.pow 2 11
  let fraction : Nat := bits.toNat % Nat.pow 2 52
  if field = Nat.pow 2 11 - 1 then none
  else if field = 0 then
    if fraction = 0 then none else some ⟨fraction, -1074, false⟩
  else some ⟨fraction + Nat.pow 2 52, (field : Int) - 1075, fraction == 0 && field != 1⟩

/-- A number over a common denominator: `numerator / denominator`. -/
structure Scaled where
  /-- Four times the number, over the denominator. -/
  centre : Nat
  /-- Four times the lower end of the interval. -/
  low : Nat
  /-- Four times the upper end of the interval. -/
  high : Nat
  /-- The denominator. -/
  denominator : Nat

/-- The number and its interval over one denominator. -/
def Positive64.scaled (x : Positive64) : Scaled :=
  let up := Nat.pow 2 x.exponent.toNat
  let m := x.significand
  ⟨4 * m * up, (4 * m - if x.narrowBelow then 1 else 2) * up, (4 * m + 2) * up,
    4 * Nat.pow 2 (-x.exponent).toNat⟩

/-- The power of ten `n` with `10 ^ n ≤ num / den < 10 ^ (n + 1)`, searched downwards. -/
def leadingPower (num den : Nat) : Nat → Int → Int
  | 0, n => n
  | fuel + 1, n =>
    if Nat.pow 10 n.toNat * den ≤ num * Nat.pow 10 (-n).toNat then n
    else leadingPower num den fuel (n - 1)

/-- Whether `digits * 10 ^ power` lies in the interval; the ends count when `closed`. -/
def Scaled.holds (s : Scaled) (closed : Bool) (digits : Nat) (power : Int) : Bool :=
  let here := digits * Nat.pow 10 power.toNat * s.denominator
  let low := s.low * Nat.pow 10 (-power).toNat
  let high := s.high * Nat.pow 10 (-power).toNat
  if closed then low ≤ here && here ≤ high else low < here && here < high

/-- The decimal with `count` digits in the interval that lies nearest to the number. -/
def Scaled.onGrid (s : Scaled) (closed : Bool) (leading : Int) (count : Nat) :
    Option (Nat × Int) :=
  let power := leading - (count - 1 : Nat)
  let unit := Nat.pow 10 power.toNat * s.denominator
  let num := s.centre * Nat.pow 10 (-power).toNat
  let below := num / unit
  let above := below + 1
  match s.holds closed below power, s.holds closed above power with
  | true, true =>
    let rest := num % unit
    if 2 * rest < unit || (2 * rest == unit && below % 2 == 0) then some (below, power)
    else some (above, power)
  | true, false => some (below, power)
  | false, true => some (above, power)
  | false, false => none

/-- The first digit count, from `count` on, on whose grid the interval has a decimal. -/
def Scaled.search (s : Scaled) (closed : Bool) (leading : Int) : Nat → Nat → Nat × Int
  | 0, count => (s.centre * Nat.pow 10 count / s.denominator, -count)
  | fuel + 1, count =>
    match s.onGrid closed leading count with
    | some r => r
    | none => s.search closed leading fuel (count + 1)

/-- Move trailing zeros from the digits into the power of ten. -/
def dropZeros : Nat → Nat × Int → Nat × Int
  | 0, r => r
  | fuel + 1, (digits, power) =>
    if digits ≠ 0 ∧ digits % 10 = 0 then dropZeros fuel (digits / 10, power + 1)
    else (digits, power)

/-- The shortest decimal, as its digits and the power of ten of the last digit. -/
def shortest (x : Positive64) : Nat × Int :=
  let s := x.scaled
  let leading := leadingPower s.centre s.denominator 700 309
  dropZeros 20 (s.search (x.significand % 2 == 0) leading 17 1)

end NodeLending.Decimal
