/-!
# Hexadecimal digits

Bytes are written with two lower-case digits each. Digits of either case are read.

## Main definitions

* `Text.hexValue?`: the value of a digit.
* `Text.hex`, `Text.ofHex?`: bytes in hexadecimal and back.

## Main results

* `Text.length_hexDigits`: a byte takes two digits.
* `Text.ofHex?_hex`: bytes are read back from their digits.
-/

namespace NodeLending.Text

/-- The value of a hexadecimal digit of either case. -/
def hexValue? (c : Char) : Option Nat :=
  if '0' ≤ c ∧ c ≤ '9' then some (c.toNat - 48)
  else if 'a' ≤ c ∧ c ≤ 'f' then some (c.toNat - 87)
  else if 'A' ≤ c ∧ c ≤ 'F' then some (c.toNat - 55)
  else none

/-- The two lower-case digits of a byte. -/
def hexByte (b : UInt8) : List Char :=
  [Nat.digitChar (b.toNat / 16), Nat.digitChar (b.toNat % 16)]

/-- The digits of bytes. -/
def hexDigits (bytes : List UInt8) : List Char := bytes.flatMap hexByte

/-- Bytes in lower-case hexadecimal. -/
def hex (bytes : List UInt8) : String := String.ofList (hexDigits bytes)

/-- The bytes of pairs of hexadecimal digits. -/
def ofHexDigits? : List Char → Option (List UInt8)
  | [] => some []
  | a :: b :: rest => do
    let high ← hexValue? a
    let low ← hexValue? b
    let bytes ← ofHexDigits? rest
    return UInt8.ofNat (high * 16 + low) :: bytes
  | _ => none

/-- The bytes that hexadecimal digits denote. -/
def ofHex? (s : String) : Option (List UInt8) := ofHexDigits? s.toList

/-- A byte takes two digits. -/
theorem length_hexDigits (bytes : List UInt8) : (hexDigits bytes).length = 2 * bytes.length := by
  induction bytes with
  | nil => rfl
  | cons b bs ih =>
    rw [hexDigits, List.flatMap_cons, List.length_append, ← hexDigits, ih, List.length_cons]
    simp only [hexByte, List.length_cons, List.length_nil]
    omega

/-- Bytes are written one after another. -/
theorem hex_append (bytes bytes' : List UInt8) :
    hex (bytes ++ bytes') = hex bytes ++ hex bytes' := by
  rw [hex, hexDigits, List.flatMap_append, String.ofList_append]
  rfl

theorem hexValue?_digitChar {n : Nat} (h : n < 16) : hexValue? (Nat.digitChar n) = some n := by
  have hall : ∀ k < 16, hexValue? (Nat.digitChar k) = some k := by decide
  exact hall n h

theorem ofHexDigits?_hexDigits (bytes : List UInt8) :
    ofHexDigits? (hexDigits bytes) = some bytes := by
  induction bytes with
  | nil => rfl
  | cons b bs ih =>
    have hb := b.toNat_lt
    have hvalue : UInt8.ofNat (b.toNat / 16 * 16 + b.toNat % 16) = b := by
      rw [Nat.div_add_mod', UInt8.ofNat_toNat]
    rw [hexDigits, List.flatMap_cons, ← hexDigits, hexByte, List.cons_append, List.cons_append,
      List.nil_append, ofHexDigits?, hexValue?_digitChar (by omega),
      hexValue?_digitChar (by omega), ih]
    exact congrArg (fun b => some (b :: bs)) hvalue

/-- Bytes are read back from their digits. -/
theorem ofHex?_hex (bytes : List UInt8) : ofHex? (hex bytes) = some bytes := by
  rw [ofHex?, hex, String.toList_ofList, ofHexDigits?_hexDigits]

/-- Different bytes have different digits. -/
theorem hex_inj {bytes bytes' : List UInt8} : hex bytes = hex bytes' ↔ bytes = bytes' := by
  refine ⟨fun h => ?_, congrArg hex⟩
  have hread := congrArg ofHex? h
  rwa [ofHex?_hex, ofHex?_hex, Option.some.injEq] at hread

end NodeLending.Text
