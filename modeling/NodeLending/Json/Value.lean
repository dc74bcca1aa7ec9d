import NodeLending.Json.Number
import NodeLending.Keyed

/-!
# JSON values and their compact text

An object keeps its fields in the order they were given in, repeats included. The compact text has
no blank between its parts. In a string the quote, the backslash and the control characters below
U+0020 are escaped and nothing else is.

## Main definitions

* `Json.Value`: the values.
* `Json.Value.render`: the compact text.
* `Json.Value.sorted`: the value with the fields of every object in ascending order of their names,
  the last one of a name staying.
-/

namespace NodeLending.Json

/-- A JSON value. -/
inductive Value where
  /-- The null value. -/
  | null
  /-- A truth value. -/
  | bool (b : Bool)
  /-- A number. -/
  | number (n : Number)
  /-- A text. -/
  | string (s : String)
  /-- A list of values. -/
  | array (items : List Value)
  /-- A list of named values. -/
  | object (fields : List (String × Value))
  deriving Repr, Inhabited

namespace Value

/-- The value of a natural number. -/
def nat (n : Nat) : Value := .number (.integer n)

/-- The value of a word of 64 bits. -/
def word (n : UInt64) : Value := nat n.toNat

/-- The value under a name; of several the last one counts. -/
def field? (name : String) : Value → Option Value
  | object fields => (fields.reverse.find? (fun f => f.1 == name)).map Prod.snd
  | _ => none

/-- The text of a string value. -/
def string? : Value → Option String
  | string s => some s
  | _ => none

/-! ### The compact text -/

/-- A lower-case hexadecimal digit. -/
def hexDigit (n : Nat) : Char := Nat.digitChar (n % 16)

/-- A character inside a quoted string. -/
def escape (c : Char) : List Char :=
  if c = '"' then ['\\', '"']
  else if c = '\\' then ['\\', '\\']
  else if c.toNat = 8 then ['\\', 'b']
  else if c.toNat = 9 then ['\\', 't']
  else if c.toNat = 10 then ['\\', 'n']
  else if c.toNat = 12 then ['\\', 'f']
  else if c.toNat = 13 then ['\\', 'r']
  else if c.toNat < 32 then ['\\', 'u', '0', '0', hexDigit (c.toNat / 16), hexDigit c.toNat]
  else [c]

/-- A quoted string. -/
def quote (s : String) : List Char := '"' :: (s.toList.flatMap escape ++ ['"'])

mutual

/-- The characters of the compact text. -/
def chars : Value → List Char
  | .null => ['n', 'u', 'l', 'l']
  | .bool true => ['t', 'r', 'u', 'e']
  | .bool false => ['f', 'a', 'l', 's', 'e']
  | .number n => n.render
  | .string s => quote s
  | .array items => '[' :: (itemChars items ++ [']'])
  | .object fields => '\x7b' :: (fieldChars fields ++ ['\x7d'])

/-- The items of an array with commas between them. -/
def itemChars : List Value → List Char
  | [] => []
  | v :: rest => chars v ++ moreItemChars rest

/-- The later items of an array, each behind a comma. -/
def moreItemChars : List Value → List Char
  | [] => []
  | v :: rest => ',' :: (chars v ++ moreItemChars rest)

/-- The fields of an object with commas between them. -/
def fieldChars : List (String × Value) → List Char
  | [] => []
  | (k, v) :: rest => quote k ++ ':' :: (chars v ++ moreFieldChars rest)

/-- The later fields of an object, each behind a comma. -/
def moreFieldChars : List (String × Value) → List Char
  | [] => []
  | (k, v) :: rest => ',' :: (quote k ++ ':' :: (chars v ++ moreFieldChars rest))

end

/-- The compact text of a value. -/
def render (v : Value) : String := String.ofList v.chars

/-! ### Sorted fields -/

mutual

/-- The value with the fields of every object in ascending order. -/
def sorted : Value → Value
  | .array items => .array (sortedItems items)
  | .object fields => .object (Keyed.ofList (sortedFields fields)).entries
  | v => v

/-- Sort inside every item. -/
def sortedItems : List Value → List Value
  | [] => []
  | v :: rest => sorted v :: sortedItems rest

/-- Sort inside every field. -/
def sortedFields : List (String × Value) → List (String × Value)
  | [] => []
  | (k, v) :: rest => (k, sorted v) :: sortedFields rest

end

end Value

end NodeLending.Json
