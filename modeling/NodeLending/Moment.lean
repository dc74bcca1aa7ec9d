import NodeLending.Calendar
import NodeLending.Text.Blank
import NodeLending.Text.Numeral

/-!
# Moments in time

A moment is counted in seconds from the start of 1970 in universal time, with the nanoseconds that
follow the second. A leap second has no count of its own: it prolongs the second in front of it,
so its nanoseconds start at 10 ^ 9.

A moment is written as a date and a time of day with the letter `T` between and the letter `Z`
behind them. The fraction has no, three, six or nine digits. When a moment is read, a blank may
stand for the `T`, blanks may stand between the parts, and any offset from universal time of less
than a day may stand for the `Z`.

## Main definitions

* `Moment`, with `Moment.text` and `Moment.parse?`.
* `Moment.ParseError`: why a text is no moment.
-/

namespace NodeLending

/-- A moment in time. -/
structure Moment where
  /-- The whole seconds since the start of 1970. -/
  second : Int
  /-- The nanoseconds behind the second, from 10 ^ 9 on in a leap second. -/
  nano : Nat
  deriving DecidableEq, Repr

namespace Moment

/-- Whether a moment is not after another. -/
def le (a b : Moment) : Bool :=
  a.second < b.second || (a.second == b.second && a.nano ≤ b.nano)

/-- The later one of two moments. -/
def later (a b : Moment) : Moment := if a.le b then b else a

/-! ### Writing -/

/-- A number with zeros in front up to a width. -/
def padded (width n : Nat) : String :=
  let digits := Nat.toDigits 10 n
  String.ofList (List.replicate (width - digits.length) '0' ++ digits)

/-- A year; outside four digits it has a sign. -/
def yearText (year : Int) : String :=
  if 0 ≤ year ∧ year ≤ 9999 then padded 4 year.toNat
  else (if year < 0 then "-" else "+") ++ padded 4 year.natAbs

/-- The fraction of a second, in groups of three digits. -/
def fractionText (nano : Nat) : String :=
  if nano = 0 then ""
  else if nano % 1000000 = 0 then "." ++ padded 3 (nano / 1000000)
  else if nano % 1000 = 0 then "." ++ padded 6 (nano / 1000)
  else "." ++ padded 9 nano

/-- The text of a moment. -/
def text (m : Moment) : String :=
  let date := Calendar.Date.ofDays (m.second / 86400)
  let s := (m.second % 86400).toNat
  yearText date.year ++ "-" ++ padded 2 date.month ++ "-" ++ padded 2 date.day ++ "T" ++
    padded 2 (s / 3600) ++ ":" ++ padded 2 (s / 60 % 60) ++ ":" ++
    padded 2 (s % 60 + m.nano / 1000000000) ++ fractionText (m.nano % 1000000000) ++ "Z"

instance : ToString Moment := ⟨text⟩

/-! ### Reading -/

/-- Why a text is no moment. -/
inductive ParseError where
  /-- A character stands where it cannot. -/
  | invalid
  /-- The text stops too early. -/
  | tooShort
  /-- Something follows the moment. -/
  | tooLong
  /-- A part of the moment is too large, or there is no such date. -/
  | outOfRange
  /-- The date is too far away. -/
  | impossible
  deriving DecidableEq, Repr

/-- The wording of a parse error. -/
def ParseError.message : ParseError → String
  | .invalid => "input contains invalid characters"
  | .tooShort => "premature end of input"
  | .tooLong => "trailing input"
  | .outOfRange => "input is out of range"
  | .impossible => "no possible date and time matching input"

/-- A reader of a part of a text, which leaves the rest. -/
abbrev Reader := StateT (List Char) (Except ParseError)

/-- Pass over blanks. -/
def skipBlanks : Reader Unit := modify Text.trimLeft

/-- Read one character. -/
def next : Reader Char := do
  match ← get with
  | [] => throw .tooShort
  | c :: cs => set cs; return c

/-- Read up to `width` further digits behind a number; the number is kept below `2 ^ 63`. -/
def digits (acc : Nat) : Nat → List Char → Except ParseError (Nat × List Char)
  | width + 1, c :: cs =>
    match Numeral.digit? c with
    | some d =>
      if acc * 10 + d < UInt64.size / 2 then digits (acc * 10 + d) width cs else .error .outOfRange
    | none => .ok (acc, c :: cs)
  | _, cs => .ok (acc, cs)

/-- Read a number of at least one digit and at most `width`. -/
def number (width : Nat) : Reader Nat := fun cs =>
  match cs with
  | [] => .error .tooShort
  | c :: _ => if c.isDigit then digits 0 width cs else .error .invalid

/-- Read a number between two bounds, with blanks in front. -/
def numberIn (width low high : Nat) : Reader Nat := do
  skipBlanks
  let n ← number width
  if low ≤ n ∧ n ≤ high then return n else throw .outOfRange

/-- Read a certain character, with blanks in front. -/
def sign (c : Char) : Reader Unit := do
  skipBlanks
  if (← next) = c then return () else throw .invalid

/-- Read a year: four digits at most, or as many as there are behind a sign. -/
def year : Reader Int := do
  skipBlanks
  let y ← match ← get with
    | '-' :: rest => do
      set rest
      pure (-((← number rest.length : Nat) : Int))
    | '+' :: rest => do
      set rest
      pure ((← number rest.length : Nat) : Int)
    | _ => do pure ((← number 4 : Nat) : Int)
  if -0x80000000 ≤ y ∧ y < 0x80000000 then return y else throw .outOfRange

/-- Read a date. -/
def date : Reader Calendar.Date := do
  let y ← year
  sign '-'
  let m ← numberIn 2 1 12
  sign '-'
  let d ← numberIn 2 1 31
  return ⟨y, m, d⟩

/-- Read what stands between the date and the time of day. -/
def separator : Reader Unit := do
  let c ← next
  if c = 'T' ∨ c = 't' ∨ c = ' ' then return () else throw .invalid

/-- Read the fraction of a second, if there is one; what exceeds nine digits is passed over. -/
def fraction : Reader Nat := do
  match ← get with
  | '.' :: cs =>
    set cs
    let n ← number 9
    let rest ← get
    set (rest.dropWhile Char.isDigit)
    return n * Nat.pow 10 (9 - (cs.length - rest.length))
  | _ => return 0

/-- Read a time of day: the second of the day and the nanoseconds. -/
def timeOfDay : Reader (Nat × Nat) := do
  let h ← numberIn 2 0 23
  sign ':'
  let m ← numberIn 2 0 59
  sign ':'
  let s ← numberIn 2 0 60
  let n ← fraction
  let leap := if s = 60 then 1 else 0
  return (h * 3600 + m * 60 + (s - leap), n + leap * 1000000000)

/-- Read two digits. One character of ASCII is too short, and any other is invalid. -/
def twoDigits : Reader (Nat × Nat) := do
  match ← get with
  | [] => throw .tooShort
  | [c] => if c.toNat < 128 then throw .tooShort else throw .invalid
  | c :: d :: rest =>
    match Numeral.digit? c, Numeral.digit? d with
    | some a, some b => set rest; return (a, b)
    | _, _ => throw .invalid

/-- Read the hours and minutes of an offset, in seconds. -/
def offsetAmount : Reader Nat := do
  let (a, b) ← twoDigits
  modify (List.dropWhile fun c => c == ':' || Text.isBlank c)
  let (c, d) ← twoDigits
  if c ≤ 5 then return (a * 10 + b) * 3600 + (c * 10 + d) * 60 else throw .outOfRange

/-- Read an offset from universal time, in seconds. -/
def offset : Reader Int := do
  skipBlanks
  let cs ← get
  if (cs.take 3).map Char.toUpper = ['U', 'T', 'C'] then
    set (cs.drop 3)
    return 0
  let c ← next
  if c = 'Z' ∨ c = 'z' then return 0
  else if c = '+' then return ((← offsetAmount : Nat) : Int)
  else if c = '-' ∨ c = Char.ofNat 0x2212 then return -((← offsetAmount : Nat) : Int)
  else throw .invalid

/-- The years in which a moment may lie. -/
def isNear (d : Calendar.Date) : Bool := -262143 ≤ d.year && d.year ≤ 262142

/-- Read a moment. -/
def reader : Reader Moment := do
  let d ← date
  separator
  let (second, nano) ← timeOfDay
  let shift ← offset
  skipBlanks
  if (← get) ≠ [] then throw .tooLong
  if ¬(d.isValid ∧ isNear d) ∨ shift.natAbs ≥ 86400 then throw .outOfRange
  let total := d.toDays * 86400 + second - shift
  if isNear (.ofDays (total / 86400)) then return ⟨total, nano⟩ else throw .impossible

/-- The moment of a text. -/
def parse? (s : String) : Except ParseError Moment := reader.run' s.toList

end Moment

end NodeLending
