import NodeLending.Json.Decode
import NodeLending.Name
import NodeLending.Reservation.Id

/-!
# Types that are written as JSON

A codec says how the values of a type are written and read.

## Main definitions

* `Json.Codec`: the codecs, with those of names and reservation numbers.
* `Json.optional`: a field that is left out when it has no value.
-/

namespace NodeLending.Json

/-- How the values of a type are written and read. -/
class Codec (α : Type) where
  /-- The written value. -/
  encode : α → Value
  /-- The reader. -/
  decoder : Decoder α

export Codec (encode)

/-- The value of a text. -/
def read {α : Type} [Codec α] (s : String) : Except DecodeError α := decode Codec.decoder s

/-- The text of a value. -/
def write {α : Type} [Codec α] (a : α) : String := (encode a).render

/-- A field that is left out when it has no value. -/
def optional (name : String) : Option Value → List (String × Value)
  | some v => [(name, v)]
  | none => []

instance : Codec String := ⟨.string, Decoder.string⟩

instance {kind : NameKind} : Codec (Name kind) where
  encode n := .string n.text
  decoder := Decoder.string.refine fun s => (Name.parse? kind s).mapError NameError.message

instance : Codec ReservationId where
  encode id := .word id.value
  decoder o := (Decoder.word "u64" o).map ReservationId.mk

end NodeLending.Json
