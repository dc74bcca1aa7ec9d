import NodeLending.Text.Numeral

/-!
# Reservation numbers

A reservation is known by a number of 64 bits, which also is the run number of the protocol.

## Main definitions

* `ReservationId`: the number, read by `ReservationId.parse?` and printed in decimal.
-/

namespace NodeLending

/-- The number of a reservation. -/
structure ReservationId where
  /-- The number itself. -/
  value : UInt64
  deriving DecidableEq, Repr

namespace ReservationId

/-- Why a text is no reservation number. -/
inductive ParseError where
  /-- There is no text. -/
  | empty
  /-- The text is not a numeral of 64 bits. -/
  | notNumeric (text : String)
  deriving DecidableEq, Repr

/-- The wording of a parse error. -/
def ParseError.message : ParseError → String
  | .empty => "ID cannot be empty"
  | .notNumeric text => s!"invalid id value '{text}'"

/-- Read a reservation number. -/
def parse? (s : String) : Except ParseError ReservationId :=
  if s.isEmpty then .error .empty
  else
    match Numeral.readWord s with
    | .ok n => .ok ⟨n⟩
    | .error _ => .error (.notNumeric s)

instance : ToString ReservationId := ⟨fun id => toString id.value.toNat⟩

/-- Reservations are ordered by number, which is the order of their arrival. -/
instance : Ord ReservationId := ⟨fun a b => compare a.value b.value⟩

theorem compare_def (a b : ReservationId) : compare a b = compare a.value b.value := rfl

instance : Std.TransOrd ReservationId where
  eq_swap {a b} := @Std.OrientedCmp.eq_swap UInt64 compare _ a.value b.value
  isLE_trans {a b c} := @Std.TransCmp.isLE_trans UInt64 compare _ a.value b.value c.value

instance : Std.LawfulEqOrd ReservationId where
  compare_self {a} := @Std.ReflCmp.compare_self UInt64 compare _ a.value
  eq_of_compare {a b} h := by
    cases a
    cases b
    exact congrArg _ (@Std.LawfulEqCmp.eq_of_compare UInt64 compare _ _ _ h)

end ReservationId

end NodeLending
