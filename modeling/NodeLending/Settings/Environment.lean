import NodeLending.Keyed
import NodeLending.Name
import NodeLending.Text.Numeral

/-!
# Settings from the environment

Settings come from variables. Blanks around a value do not count, and a blank value counts as none.
A period is a positive whole number of its unit.

## Main definitions

* `Environment`, with `Environment.text?` and `Environment.period`.
* `SettingsError`: why settings are rejected.
-/

namespace NodeLending

/-- The variables. -/
abbrev Environment := Keyed String String

/-- Why settings are rejected. -/
inductive SettingsError where
  /-- The address to listen on is no socket address. -/
  | address
  /-- A variable has to be set. -/
  | missing (key : String)
  /-- The name of the party is no name. -/
  | partyName (key : String) (e : NameError)
  /-- A period is no number; `kind` says what was asked for. -/
  | notNumber (key kind value : String) (e : NumeralError)
  /-- A period is zero; `least` says what was asked for. -/
  | zero (key least : String)
  deriving DecidableEq, Repr

/-- The wording of a settings error, its causes included. -/
def SettingsError.message : SettingsError → String
  | .address => "invalid socket address syntax"
  | .missing key => s!"{key} must be set"
  | .partyName key e => s!"{key} is not a valid party name: {e.message}"
  | .notNumber key kind value e => s!"{key} must be {kind}, got '{value}': {e.message}"
  | .zero key least => s!"{key} must be {least}"

/-- A length of time in milliseconds. -/
structure Period where
  /-- The milliseconds. -/
  milliseconds : Nat
  deriving DecidableEq, Repr

namespace Period

/-- A length of time in seconds. -/
def ofSeconds (n : Nat) : Period := ⟨n * 1000⟩

/-- The whole seconds. -/
def seconds (p : Period) : Nat := p.milliseconds / 1000

/-- The milliseconds behind the whole seconds. -/
def rest (p : Period) : Nat := p.milliseconds % 1000

end Period

namespace Environment

/-- The value of a variable without the blanks around it, unless it is blank. -/
def text? (env : Environment) (key : String) : Option String :=
  ((env.find? key).map Text.trim).filter (· ≠ "")

/-- How a period is asked for. -/
structure Wording where
  /-- What the value has to be. -/
  kind : String
  /-- What the number has to be at least. -/
  least : String

/-- A period, or its default when the variable is not set. -/
def period (env : Environment) (w : Wording) (key : String) (unit : Nat → Period)
    (default : Period) : Except SettingsError Period :=
  match env.text? key with
  | none => .ok default
  | some value =>
    match Numeral.readWord value with
    | .error e => .error (.notNumber key w.kind value e)
    | .ok n => if n = 0 then .error (.zero key w.least) else .ok (unit n.toNat)

/-- The value of a variable that has to be set. -/
def required (env : Environment) (key : String) : Except SettingsError String :=
  match env.text? key with
  | some value => .ok value
  | none => .error (.missing key)

end Environment

end NodeLending
