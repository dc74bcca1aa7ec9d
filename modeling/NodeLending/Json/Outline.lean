import NodeLending.Json.Token
import NodeLending.Json.Value

/-!
# Outlines of JSON texts

The outline of a text is what can be read of it: the tree of its values up to the place where the
text stops being JSON. A reader of a typed value walks the outline in the order of the text and so
meets a value of the wrong kind before a broken place that stands behind it. The tree is built from
the tokens with a stack of the arrays and objects that are still open.

An array or object in which the text breaks off is not closed. Where the name of a field should
stand and something else does, the outline of that something is kept under the key `stray`.

## Main definitions

* `Json.Outline`: the outlines.
* `Json.Document.read`: the outline of a text, and whether anything follows it.
* `Json.Outline.isWhole`: nothing is broken inside.
* `Json.Outline.value?`, `Json.Value.read?`: the value of an outline, and of a text.
-/

namespace NodeLending.Json

/-- What stands in front of the colon of a field. -/
inductive Key where
  /-- A name. -/
  | name (s : String)
  /-- A string in which half of a surrogate pair stands alone. -/
  | undecodable
  /-- Something that is no string. -/
  | stray
  deriving DecidableEq, Repr

/-- What can be read at a place of a text. -/
inductive Outline where
  /-- The null value. -/
  | null
  /-- A truth value. -/
  | bool (b : Bool)
  /-- A number; without a value if it is out of range. -/
  | number (n : Option Number)
  /-- A string; without a text if half of a surrogate pair stands alone in it. -/
  | text (s : Option String)
  /-- An array, and whether its end has been read. -/
  | array (items : List Outline) (closed : Bool)
  /-- An object, and whether its end has been read. -/
  | object (fields : List (Key × Outline)) (closed : Bool)
  /-- No value stands here. -/
  | broken
  deriving Repr, Inhabited

/-- An array or object that is still open; its items and fields are in reverse. -/
inductive Frame where
  /-- An array. -/
  | array (items : List Outline)
  /-- An object between two fields. -/
  | object (fields : List (Key × Outline))
  /-- An object whose field `key` waits for its value. -/
  | field (fields : List (Key × Outline)) (key : Key)
  deriving Repr

/-- What may come next. -/
inductive Awaits where
  /-- A value. -/
  | value
  /-- A value or the end of an array without items. -/
  | item
  /-- A comma or an end, behind a value that is complete. -/
  | delimiter (read : Outline)
  /-- A field or the end of an object without fields. -/
  | field
  /-- A field. -/
  | nextField
  /-- A colon behind a key. -/
  | colon (key : Key)
  deriving Repr

/-- A text as far as it can be read. -/
structure Document where
  /-- The value that the text starts with. -/
  outline : Outline
  /-- Whether something stands behind the value. -/
  trailing : Bool
  deriving Repr

namespace Outline

/-- Put an outline into the innermost open array or object and leave that unclosed, together with
all those around it. -/
def abandon : List Frame → Outline → Outline
  | [], o => o
  | .array items :: outer, o => abandon outer (.array (o :: items).reverse false)
  | .object fields :: outer, _ => abandon outer (.object fields.reverse false)
  | .field fields key :: outer, o => abandon outer (.object ((key, o) :: fields).reverse false)

/-- The value that a token is, or the value it opens. -/
def head : Option Token → Outline
  | some .null => .null
  | some (.bool b) => .bool b
  | some (.number n) => .number n
  | some (.text s) => .text s
  | some .openArray => .array [] false
  | some .openObject => .object [] false
  | _ => .broken

/-- Leave an object at a place where a field should start. -/
def strayField (stack : List Frame) (t : Option Token) : Outline :=
  match stack with
  | .object fields :: outer => abandon (.field fields .stray :: outer) (head t)
  | _ => abandon stack .broken

/-- The outline when nothing that is awaited follows; `t` is what follows. -/
def stop (stack : List Frame) (a : Awaits) (t : Option Token) : Document :=
  match a with
  | .value | .item => ⟨abandon stack .broken, false⟩
  | .delimiter o =>
    match stack with
    | [] => ⟨o, t.isSome⟩
    | _ => ⟨abandon stack o, false⟩
  | .field | .nextField => ⟨strayField stack t, false⟩
  | .colon key =>
    match stack with
    | .object fields :: outer => ⟨abandon (.field fields key :: outer) .broken, false⟩
    | _ => ⟨abandon stack .broken, false⟩

/-- The key of a string. -/
def keyOf : Option String → Key
  | some s => .name s
  | none => .undecodable

/-- Read one token where a value may stand; `none` when it starts no value. -/
def openValue (stack : List Frame) : Token → Option (List Frame × Awaits)
  | .null => some (stack, .delimiter .null)
  | .bool b => some (stack, .delimiter (.bool b))
  | .number n => some (stack, .delimiter (.number n))
  | .text s => some (stack, .delimiter (.text s))
  | .openArray => some (.array [] :: stack, .item)
  | .openObject => some (.object [] :: stack, .field)
  | _ => none

/-- Read one token behind a complete value; `none` when it cannot stand there. -/
def afterValue (stack : List Frame) (o : Outline) (t : Token) : Option (List Frame × Awaits) :=
  match stack, t with
  | .array items :: outer, .comma => some (.array (o :: items) :: outer, .value)
  | .array items :: outer, .closeArray =>
    some (outer, .delimiter (.array (o :: items).reverse true))
  | .field fields key :: outer, .comma => some (.object ((key, o) :: fields) :: outer, .nextField)
  | .field fields key :: outer, .closeObject =>
    some (outer, .delimiter (.object ((key, o) :: fields).reverse true))
  | _, _ => none

/-- Read one token; `none` when it is not awaited. -/
def step (stack : List Frame) : Awaits → Token → Option (List Frame × Awaits)
  | .value, t => openValue stack t
  | .item, t =>
    match stack, t with
    | .array items :: outer, .closeArray =>
      some (outer, .delimiter (.array items.reverse true))
    | _, _ => openValue stack t
  | .delimiter o, t => afterValue stack o t
  | .field, t =>
    match stack, t with
    | .object fields :: outer, .closeObject =>
      some (outer, .delimiter (.object fields.reverse true))
    | _, .text s => some (stack, .colon (keyOf s))
    | _, _ => none
  | .nextField, .text s => some (stack, .colon (keyOf s))
  | .nextField, _ => none
  | .colon key, t =>
    match stack, t with
    | .object fields :: outer, .colon => some (.field fields key :: outer, .value)
    | _, _ => none

/-- Read tokens until one is not awaited. -/
def ofTokens (stack : List Frame) (a : Awaits) : List Token → Document
  | [] => stop stack a none
  | t :: ts =>
    match step stack a t with
    | some (stack', a') => ofTokens stack' a' ts
    | none => stop stack a (some t)

mutual

/-- Whether nothing is broken inside: every array and object is closed. -/
def isWhole : Outline → Bool
  | .array items closed => closed && areWhole items
  | .object fields closed => closed && fieldsAreWhole fields
  | .broken => false
  | _ => true

/-- Whether nothing is broken in any item. -/
def areWhole : List Outline → Bool
  | [] => true
  | o :: rest => isWhole o && areWhole rest

/-- Whether nothing is broken in any field. -/
def fieldsAreWhole : List (Key × Outline) → Bool
  | [] => true
  | (k, o) :: rest => k != .stray && isWhole o && fieldsAreWhole rest

end

/-- How deeply arrays and objects may be nested in a value. -/
def depthLimit : Nat := 127

mutual

/-- The value of an outline in which arrays and objects nest at most `depth` levels deep. -/
def valueWithin (depth : Nat) : Outline → Option Value
  | .null => some .null
  | .bool b => some (.bool b)
  | .number n => n.map .number
  | .text s => s.map .string
  | .array items closed =>
    if closed ∧ depth ≠ 0 then (itemsWithin (depth - 1) items).map .array else none
  | .object fields closed =>
    if closed ∧ depth ≠ 0 then (fieldsWithin (depth - 1) fields).map .object else none
  | .broken => none

/-- The values of the items of an array. -/
def itemsWithin (depth : Nat) : List Outline → Option (List Value)
  | [] => some []
  | o :: rest => do
    let v ← valueWithin depth o
    let vs ← itemsWithin depth rest
    return v :: vs

/-- The values of the fields of an object. -/
def fieldsWithin (depth : Nat) : List (Key × Outline) → Option (List (String × Value))
  | [] => some []
  | (k, o) :: rest =>
    match k with
    | .name s => do
      let v ← valueWithin depth o
      let vs ← fieldsWithin depth rest
      return (s, v) :: vs
    | _ => none

end

/-- The value of an outline, unless it is broken or nested too deeply. -/
def value? (o : Outline) : Option Value := o.valueWithin depthLimit

end Outline

/-- The outline of a text. -/
def Document.read (s : String) : Document :=
  Outline.ofTokens [] .value (Token.ofChars s.toList)

/-- The value of a text. -/
def Value.read? (s : String) : Option Value :=
  let d := Document.read s
  if d.trailing then none else d.outline.value?

end NodeLending.Json
