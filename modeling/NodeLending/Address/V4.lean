import NodeLending.Text.Numeral
import NodeLending.Text.Split

/-!
# IPv4 addresses

## Main definitions

* `Address.V4`, with `Address.V4.text`.
* `Address.V4.parse?`: four numbers with points between them.
-/

namespace NodeLending.Address

/-- An IPv4 address. -/
structure V4 where
  /-- The address as one number. -/
  word : UInt32
  deriving DecidableEq, Repr

namespace V4

/-- The four bytes of an address. -/
def octets (a : V4) : List Nat :=
  let n := a.word.toNat
  [n / 256 / 256 / 256, n / 256 / 256 % 256, n / 256 % 256, n % 256]

/-- The address of four bytes. -/
def ofOctets (a b c d : Nat) : V4 := ⟨UInt32.ofNat (((a * 256 + b) * 256 + c) * 256 + d)⟩

/-- The four bytes with points between them. -/
def text (a : V4) : String := Text.join "." (a.octets.map toString)

/-- A number below 256 without a zero in front. -/
def octet? (cs : List Char) : Option Nat :=
  match cs with
  | ['0'] => some 0
  | '0' :: _ => none
  | c :: _ => if c.isDigit then (Numeral.read 255 cs).toOption else none
  | [] => none

/-- The address of four numbers with points between them. -/
def parse? (cs : List Char) : Option V4 :=
  match (Text.splitAt (· == '.') cs).map octet? with
  | [some a, some b, some c, some d] => some (ofOctets a b c d)
  | _ => none

end V4

end NodeLending.Address
