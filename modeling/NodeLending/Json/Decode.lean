import NodeLending.Decode.Mismatch
import NodeLending.Json.Outline

/-!
# Typed values of JSON texts

A decoder reads a typed value off an outline. It visits the outline in the order of the text, so of
a mismatch and a broken place the one that stands first is reported.

A record may be written as an object or as an array of its fields in their order. In an object a
field that the record does not know is passed over, unless the record is strict; a known field that
comes a second time is an error before its value is looked at. When the object has been read, the
first required field that was not there is reported. In an array the items are the fields in their
order; a required field without an item makes the array too short, and an item too many is an
error of the text.

## Main definitions

* `Json.DecodeError`: a broken text, or a mismatch and its place.
* `Json.Decoder`: decoders, with `string`, `natural`, `option`, `list`, `map`, `choice`.
* `Json.Fields`: the fields of a record, built up with `required`, `defaulted` and `<*>`.
* `Json.record`: the decoder of a record, and `Json.decode` the value of a text.
-/

namespace NodeLending.Json

open Decode

/-- Why a text has no value of a type. -/
inductive DecodeError where
  /-- The text is not JSON. -/
  | malformed
  /-- The value at a place does not have the shape of the type. -/
  | mismatch (path : Path) (m : Mismatch)
  deriving DecidableEq, Repr

namespace DecodeError

/-- A mismatch at the place itself. -/
def here (m : Mismatch) : DecodeError := .mismatch [] m

/-- The error seen from one step further out. -/
def under (s : Step) : DecodeError → DecodeError
  | malformed => malformed
  | mismatch path m => mismatch (s :: path) m

end DecodeError

/-- A reader of typed values. -/
abbrev Decoder (α : Type) := Outline → Except DecodeError α

variable {α β : Type}

/-- Read the value one step further in. -/
def Decoder.under (s : Step) (d : Decoder α) : Decoder α := fun o =>
  (d o).mapError (DecodeError.under s)

/-- What a message calls the value at a place; a broken one has no name. -/
def Outline.found : Outline → Except DecodeError Found
  | .null => .ok .null
  | .bool b => .ok (.boolean b)
  | .number (some (.integer i)) => .ok (.integer i)
  | .number (some (.real _)) => .ok .real
  | .text (some s) => .ok (.text s)
  | .array _ _ => .ok .sequence
  | .object _ _ => .ok .map
  | _ => .error .malformed

namespace Decoder

/-- Report that the value has another type than the one expected. -/
def unexpected (expected : String) : Decoder α := fun o => do
  .error (.here (.invalidType (← o.found) expected))

/-- A text. -/
def string : Decoder String
  | .text (some s) => .ok s
  | o => unexpected "a string" o

/-- A natural number up to a bound; `type` is its name in messages. -/
def natural (bound : Nat) (type : String) : Decoder Nat
  | .number (some (.integer i)) =>
    if 0 ≤ i ∧ i.toNat ≤ bound then .ok i.toNat
    else .error (.here (.invalidValue (.integer i) type))
  | o => unexpected type o

/-- A natural number of 64 bits. -/
def word (type : String) : Decoder UInt64 := fun o =>
  (natural (UInt64.size - 1) type o).map UInt64.ofNat

/-- Check a decoded value further. -/
def refine (d : Decoder α) (check : α → Except String β) : Decoder β := fun o => do
  match check (← d o) with
  | .ok b => .ok b
  | .error reason => .error (.here (.rejected reason))

/-- A value or null. -/
def option (d : Decoder α) : Decoder (Option α)
  | .null => .ok none
  | o => (d o).map some

/-- The items of an array, of which the first is the `i`-th. -/
def itemsFrom (d : Decoder α) (i : Nat) : List Outline → Except DecodeError (List α)
  | [] => .ok []
  | o :: rest => do
    let a ← d.under (.index i) o
    let as ← itemsFrom d (i + 1) rest
    return a :: as

/-- An array of values. -/
def list (d : Decoder α) : Decoder (List α)
  | .array items closed => do
    let as ← itemsFrom d 0 items
    if closed then return as else .error .malformed
  | o => unexpected "a sequence" o

/-- The entries of an object. -/
def entries (key : String → Except String β) (d : Decoder α) :
    List (Key × Outline) → Except DecodeError (List (β × α))
  | [] => .ok []
  | (.name s, o) :: rest =>
    match key s with
    | .error reason => .error (.here (.rejected reason))
    | .ok k => do
      let a ← d.under (.name s) o
      let as ← entries key d rest
      return (k, a) :: as
  | _ :: _ => .error .malformed

/-- An object with arbitrary names. -/
def map (key : String → Except String β) (d : Decoder α) : Decoder (List (β × α))
  | .object fields closed => do
    let as ← entries key d fields
    if closed then return as else .error .malformed
  | o => unexpected "a map" o

/-- The choice that a word names. -/
def variant (choices : List (String × α)) (s : String) : Except DecodeError α :=
  match choices.lookup s with
  | some a => .ok a
  | none => .error (.here (.unknownVariant s (choices.map Prod.fst)))

/-- The value null, which a choice may carry. -/
def unit : Decoder Unit
  | .null => .ok ()
  | o => unexpected "unit" o

/-- One of several words, written as a text or as the name of a single null field. -/
def choice (choices : List (String × α)) : Decoder α
  | .text (some s) => variant choices s
  | .object ((.name s, o) :: rest) closed => do
    let a ← variant choices s
    unit.under (.name s) o
    if rest.isEmpty ∧ closed then return a else .error .malformed
  | .object ((.stray, o) :: _) _ => unexpected "variant identifier" o
  | _ => .error .malformed

end Decoder

/-! ### Records -/

/-- What is known of a field before its value is built. -/
structure FieldSpec where
  /-- The name of the field. -/
  name : String
  /-- Whether the field has to be there. -/
  required : Bool
  /-- The errors that the value of the field can cause. -/
  check : Outline → Except DecodeError Unit

/-- The fields of a record and the value they build, given the outlines of those that are
there. -/
structure Fields (α : Type) where
  /-- The fields in their order. -/
  specs : List FieldSpec
  /-- The value, from the outline of each field. -/
  build : (String → Option Outline) → Except DecodeError α

namespace Fields

/-- A field that has to be there. -/
def required (name : String) (d : Decoder α) : Fields α where
  specs := [⟨name, true, fun o => (d o).map fun _ => ()⟩]
  build get :=
    match get name with
    | some o => d o
    | none => .error (.here (.missingField name))

/-- A field that has a value when it is not there. -/
def defaulted (name : String) (d : Decoder α) (default : α) : Fields α where
  specs := [⟨name, false, fun o => (d o).map fun _ => ()⟩]
  build get :=
    match get name with
    | some o => d o
    | none => .ok default

/-- The same fields with another value built from them. -/
def map (f : α → β) (x : Fields α) : Fields β := ⟨x.specs, fun get => (x.build get).map f⟩

/-- The fields of one record in front of those of another. -/
def append (f : Fields (α → β)) (x : Fields α) : Fields β where
  specs := f.specs ++ x.specs
  build get := do
    let g ← f.build get
    let a ← x.build get
    return g a

instance : Functor Fields := ⟨Fields.map, fun a x => x.map fun _ => a⟩

instance : Seq Fields := ⟨fun f x => f.append (x ())⟩

end Fields

/-- Read the fields of an object; `seen` holds those that have been read. -/
def readFields (specs : List FieldSpec) (strict : Bool) (seen : List (String × Outline)) :
    List (Key × Outline) → Except DecodeError (List (String × Outline))
  | [] => .ok seen
  | (.name s, o) :: rest =>
    match specs.find? (fun spec => spec.name == s) with
    | some spec =>
      if (seen.lookup s).isSome then .error (.here (.duplicateField s))
      else
        match spec.check o with
        | .error e => .error (e.under (.name s))
        | .ok () => readFields specs strict (seen ++ [(s, o)]) rest
    | none =>
      if strict then .error (.here (.unknownField s (specs.map FieldSpec.name)))
      else if o.isWhole then readFields specs strict seen rest
      else .error .malformed
  | _ :: _ => .error .malformed

/-- Read the fields of an array, of which the first is the `i`-th. -/
def readItems (expected : String) (closed : Bool) (i : Nat) :
    List FieldSpec → List Outline → Except DecodeError (List (String × Outline))
  | [], [] => if closed then .ok [] else .error .malformed
  | [], _ :: _ => .error .malformed
  | spec :: specs, [] =>
    if !closed then .error .malformed
    else if spec.required then .error (.here (.invalidLength i expected))
    else readItems expected closed (i + 1) specs []
  | spec :: specs, o :: rest =>
    match spec.check o with
    | .error e => .error (e.under (.index i))
    | .ok () => do
      let later ← readItems expected closed (i + 1) specs rest
      return (spec.name, o) :: later

/-- The words for a record written as an array. -/
def lengthWords (name : String) : Nat → String
  | 1 => name ++ " with 1 element"
  | n => name ++ " with " ++ toString n ++ " elements"

/-- The first required field that was not read. -/
def missing? (specs : List FieldSpec) (seen : List (String × Outline)) : Option String :=
  (specs.find? fun spec => spec.required && (seen.lookup spec.name).isNone).map FieldSpec.name

/-- A record; a strict one knows no fields but its own. -/
def record (name : String) (strict : Bool) (fields : Fields α) : Decoder α
  | .object pairs closed => do
    let seen ← readFields fields.specs strict [] pairs
    if !closed then .error .malformed
    else
      match missing? fields.specs seen with
      | some field => .error (.here (.missingField field))
      | none => fields.build fun field => seen.lookup field
  | .array items closed => do
    let expected := lengthWords ("struct " ++ name) fields.specs.length
    let seen ← readItems expected closed 0 fields.specs items
    fields.build fun field => seen.lookup field
  | o => Decoder.unexpected ("struct " ++ name) o

/-- The value of a text that has been read as far as it can be. -/
def Document.decode (document : Document) (d : Decoder α) : Except DecodeError α :=
  match d document.outline with
  | .error e => .error e
  | .ok a => if document.trailing then .error .malformed else .ok a

/-- The value of a text. -/
def decode (d : Decoder α) (s : String) : Except DecodeError α := (Document.read s).decode d

end NodeLending.Json
