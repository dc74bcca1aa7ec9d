/-!
# Decimal numerals

A numeral is a sequence of ASCII digits with an optional plus sign in front. Reading goes from
left to right and stops at the first fault, so a letter behind a number that has already grown
too large is not what is reported.

## Main definitions

* `Numeral.read`: the number a text denotes, up to a bound.
* `NumeralError`: why a text is no numeral.
-/

namespace NodeLending

/-- Why a text is not a numeral below the bound. -/
inductive NumeralError where
  /-- There is nothing to read. -/
  | empty
  /-- A character is not a digit, or a sign stands alone. -/
  | invalidDigit
  /-- The number is above the bound. -/
  | tooLarge
  deriving DecidableEq, Repr

/-- The wording of a numeral error. -/
def NumeralError.message : NumeralError → String
  | .empty => "cannot parse integer from empty string"
  | .invalidDigit => "invalid digit found in string"
  | .tooLarge => "number too large to fit in target type"

namespace Numeral

/-- The value of an ASCII digit. -/
def digit? (c : Char) : Option Nat :=
  if '0' ≤ c ∧ c ≤ '9' then some (c.toNat - '0'.toNat) else none

/-- Read digits behind a number `acc` that has been read already. -/
def readDigits (bound acc : Nat) : List Char → Except NumeralError Nat
  | [] => .ok acc
  | c :: cs =>
    match digit? c with
    | none => .error .invalidDigit
    | some d =>
      if acc * 10 + d ≤ bound then readDigits bound (acc * 10 + d) cs else .error .tooLarge

/-- Read a numeral with an optional plus sign. -/
def read (bound : Nat) (cs : List Char) : Except NumeralError Nat :=
  match cs with
  | [] => .error .empty
  | ['+'] => .error .invalidDigit
  | '+' :: rest => readDigits bound 0 rest
  | _ => readDigits bound 0 cs

/-- The largest number of 64 bits. -/
def maxWord : Nat := UInt64.size - 1

/-- Read a numeral of 64 bits. -/
def readWord (s : String) : Except NumeralError UInt64 :=
  (read maxWord s.toList).map UInt64.ofNat

end Numeral

end NodeLending
