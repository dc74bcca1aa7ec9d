import NodeLending.Toml.Document

/-!
# Typed values of TOML documents

A record is read off the entries of a table. The entries are visited by ascending key, and the
first one that the record does not know, or whose value has the wrong type, is reported; only when
all of them are right is a missing entry reported, the first one in the order of the record.

## Main definitions

* `Toml.DecodeError`: a broken document or a mismatch.
* `Toml.Decoder`, with `text` and `texts`.
* `Toml.Field`, `Toml.visit`, `Toml.required`, `Toml.optional`: the entries of a record.
-/

namespace NodeLending.Toml

open Decode

/-- Why a document has no value of a type. -/
inductive DecodeError where
  /-- The document cannot be read, or a number in it is out of range. -/
  | malformed
  /-- A value does not have the shape of the type. -/
  | mismatch (m : Mismatch)
  deriving DecidableEq, Repr

/-- The wording of a decode error. -/
def DecodeError.message : DecodeError → String
  | .malformed => "syntax error"
  | .mismatch m => m.message

/-- A reader of typed values. -/
abbrev Decoder (α : Type) := Value → Except DecodeError α

/-- The only key of a date or time that is read as a table. -/
def datetimeKey : String := "$__toml_private_datetime"

/-- What a message calls a value; a number that is out of range has no name. -/
def Value.found : Value → Except DecodeError Found
  | .text s => .ok (.text s)
  | .integer i =>
    if -Int.pow 2 63 ≤ i ∧ i < Int.pow 2 63 then .ok (.integer i)
    else if -Int.pow 2 127 ≤ i ∧ i < Int.pow 2 127 then .ok (.wideInteger i "i128")
    else if 0 ≤ i ∧ i < Int.pow 2 128 then .ok (.wideInteger i "u128")
    else .error .malformed
  | .real inRange => if inRange then .ok .real else .error .malformed
  | .boolean b => .ok (.boolean b)
  | .datetime _ => .ok .map
  | .array _ => .ok .sequence
  | .table _ => .ok .map

namespace Decoder

variable {α : Type}

/-- Report that a value has another type than the one expected. -/
def unexpected (expected : String) : Decoder α := fun v => do
  .error (.mismatch (.invalidType (← v.found) expected))

/-- A text. -/
def text : Decoder String
  | .text s => .ok s
  | v => unexpected "a string" v

/-- The entries of a table of texts. -/
def textEntries : List (String × Value) → Except DecodeError (List (String × String))
  | [] => .ok []
  | (k, v) :: rest => do
    let s ← text v
    let later ← textEntries rest
    return (k, s) :: later

/-- A table of texts. -/
def texts : Decoder (Keyed String String)
  | .table entries => (textEntries entries).map Keyed.ofList
  | .datetime s => .ok (Keyed.ofList [(datetimeKey, s)])
  | v => unexpected "a map" v

end Decoder

/-! ### Records -/

/-- An entry that a record knows. -/
structure Field where
  /-- The key. -/
  name : String
  /-- The errors that its value can cause. -/
  check : Value → Except DecodeError Unit

/-- An entry whose value a decoder reads. -/
def Field.field {α : Type} (name : String) (d : Decoder α) : Field := ⟨name, fun v => (d v).map fun _ => ()⟩

/-- Visit the entries of a record. -/
def visit (known : List Field) : List (String × Value) → Except DecodeError Unit
  | [] => .ok ()
  | (k, v) :: rest =>
    match known.find? (fun f => f.name == k) with
    | none => .error (.mismatch (.unknownField k (known.map Field.name)))
    | some f => do
      f.check v
      visit known rest

/-- The value of an entry that need not be there. -/
def optional {α : Type} (entries : List (String × Value)) (name : String) (d : Decoder α) :
    Except DecodeError (Option α) :=
  match entries.lookup name with
  | none => .ok none
  | some v => (d v).map some

/-- The value of an entry that has to be there. -/
def required {α : Type} (entries : List (String × Value)) (name : String) (d : Decoder α) :
    Except DecodeError α := do
  match ← optional entries name d with
  | some a => return a
  | none => .error (.mismatch (.missingField name))

/-- The entries of a document. -/
def read (document : String) : Except DecodeError (List (String × Value)) :=
  match parse? document with
  | some entries => .ok entries
  | none => .error .malformed

end NodeLending.Toml
