import NodeLending.Address.V6

/-!
# Socket addresses

An address with a port behind a colon. An IPv6 address stands in brackets and may have a scope
number behind a percent sign.

## Main definitions

* `Address.Socket`, with `Address.Socket.parse?` and `Address.Socket.text`.
-/

namespace NodeLending.Address

/-- An address with a port. -/
inductive Socket where
  /-- An IPv4 address with a port. -/
  | v4 (address : V4) (port : Nat)
  /-- An IPv6 address with a scope and a port. -/
  | v6 (address : V6) (scope port : Nat)
  deriving DecidableEq, Repr

namespace Socket

/-- A number of digits only, up to a bound. -/
def number? (bound : Nat) (cs : List Char) : Option Nat :=
  match cs with
  | [] => none
  | _ => (Numeral.readDigits bound 0 cs).toOption

/-- The port that a text ends with, behind a colon. -/
def port? : List Char → Option Nat
  | ':' :: cs => number? (UInt16.size - 1) cs
  | _ => none

/-- The address and the scope inside the brackets. -/
def scoped? (cs : List Char) : Option (V6 × Nat) := do
  let (address, scope) := Text.cutAt (· == '%') cs
  let a ← V6.parse? address
  match scope with
  | [] => return (a, 0)
  | _ :: digits => return (a, ← number? (UInt32.size - 1) digits)

/-- The address of a text. -/
def parse? (s : String) : Option Socket :=
  match s.toList with
  | '[' :: cs => do
    let (inside, rest) := Text.cutAt (· == ']') cs
    let (a, scope) ← scoped? inside
    return .v6 a scope (← port? rest.tail)
  | cs => do
    let (address, rest) := Text.cutAt (· == ':') cs
    return .v4 (← V4.parse? address) (← port? rest)

/-- The text of an address. -/
def text : Socket → String
  | v4 a port => a.text ++ ":" ++ toString port
  | v6 a scope port =>
    "[" ++ a.textWithV4 ++ (if scope = 0 then "" else "%" ++ toString scope) ++ "]:" ++
      toString port

instance : ToString Socket := ⟨text⟩

end Socket

end NodeLending.Address
