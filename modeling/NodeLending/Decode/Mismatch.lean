import NodeLending.Text.Quoted

/-!
# Mismatches between a document and a type

A document that can be read may still not have the shape of the type it is read as. A mismatch
says what was found and what was expected; for a record it says which field is missing, unknown or
given twice. The path of a mismatch leads from the root of the document to the place of the value.

## Main definitions

* `Decode.Found`: a kind of value, as a message names it.
* `Decode.Mismatch`: how a value disagrees with a type, with `Decode.Mismatch.message`.
* `Decode.Path`: a place in a document.
-/

namespace NodeLending.Decode

/-- A value as a message names it. -/
inductive Found where
  /-- The null value. -/
  | null
  /-- A truth value. -/
  | boolean (b : Bool)
  /-- An integer. -/
  | integer (i : Int)
  /-- An integer beyond 64 bits, with the name of a type that holds it. -/
  | wideInteger (i : Int) (type : String)
  /-- A floating point number, whose value is not shown. -/
  | real
  /-- A text. -/
  | text (s : String)
  /-- A sequence of values. -/
  | sequence
  /-- Named values. -/
  | map
  deriving DecidableEq, Repr

/-- A word in the marks that set off what a document says. -/
def ticked (s : String) : String := "\x60" ++ s ++ "\x60"

/-- The words for a value. -/
def Found.message : Found → String
  | .null => "null"
  | .boolean b => "boolean " ++ ticked (toString b)
  | .integer i => "integer " ++ ticked (toString i)
  | .wideInteger i type => "integer " ++ ticked (toString i) ++ " as " ++ type
  | .real => "floating point"
  | .text s => "string " ++ Text.quoted s
  | .sequence => "sequence"
  | .map => "map"

/-- How a value disagrees with a type. -/
inductive Mismatch where
  /-- The value has another type. -/
  | invalidType (found : Found) (expected : String)
  /-- The value has the type and lies outside its range. -/
  | invalidValue (found : Found) (expected : String)
  /-- A record written as a sequence is too short. -/
  | invalidLength (length : Nat) (expected : String)
  /-- A field is not there. -/
  | missingField (name : String)
  /-- A field is not one of the record's. -/
  | unknownField (name : String) (known : List String)
  /-- A field is there twice. -/
  | duplicateField (name : String)
  /-- A word is not one of the choices. -/
  | unknownVariant (name : String) (known : List String)
  /-- The value is well typed and was rejected for a reason of its own. -/
  | rejected (reason : String)
  deriving DecidableEq, Repr

/-- The words for a choice of names. -/
def oneOf : List String → String
  | [] => "nothing"
  | [a] => ticked a
  | [a, b] => ticked a ++ " or " ++ ticked b
  | names => "one of " ++ ", ".intercalate (names.map ticked)

/-- The wording of a mismatch. -/
def Mismatch.message : Mismatch → String
  | .invalidType found expected =>
    "invalid type: " ++ found.message ++ ", expected " ++ expected
  | .invalidValue found expected =>
    "invalid value: " ++ found.message ++ ", expected " ++ expected
  | .invalidLength length expected =>
    "invalid length " ++ toString length ++ ", expected " ++ expected
  | .missingField name => "missing field " ++ ticked name
  | .unknownField name known =>
    "unknown field " ++ ticked name ++ ", expected " ++ oneOf known
  | .duplicateField name => "duplicate field " ++ ticked name
  | .unknownVariant name known =>
    "unknown variant " ++ ticked name ++ ", expected " ++ oneOf known
  | .rejected reason => reason

/-- One step towards a place in a document. -/
inductive Step where
  /-- Into a field or a choice. -/
  | name (s : String)
  /-- Into an item of a sequence. -/
  | index (i : Nat)
  deriving DecidableEq, Repr

/-- A place in a document, as the steps from its root. -/
abbrev Path := List Step

/-- The text of the steps that follow others. -/
def Path.tail : Path → String
  | [] => ""
  | .name s :: rest => "." ++ s ++ Path.tail rest
  | .index i :: rest => "[" ++ toString i ++ "]" ++ Path.tail rest

/-- The text of a path: names are joined by points, and an index stands in brackets. -/
def Path.text : Path → String
  | .name s :: rest => s ++ Path.tail rest
  | path => path.tail

end NodeLending.Decode
