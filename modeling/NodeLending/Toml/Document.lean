import NodeLending.Toml.Table
import NodeLending.Toml.Token

/-!
# Reading TOML documents

The tokens of a document are read one at a time. The reader remembers the entries of the document
so far, the table that the last header opened, and a stack of the arrays and tables in brackets
and braces that are still open. A document that ends inside of one, or in the middle of a line, is
no document.

A value without quotes may stretch over several tokens, because it may hold points; a date and a
time may have a single space between them.

## Main definitions

* `Toml.Awaits`, `Toml.State`, `Toml.State.step`: the reader.
* `Toml.parse?`: the entries of a document.
-/

namespace NodeLending.Toml

/-- What a key is read for. -/
inductive Purpose where
  /-- The entry of a line. -/
  | entry
  /-- A table that is opened. -/
  | table
  /-- A table that is added to a list. -/
  | listed
  deriving DecidableEq, Repr

/-- An array or table in braces that is still open. -/
inductive Frame where
  /-- An array; its items so far, last one first. -/
  | array (items : List Value)
  /-- A table in braces. -/
  | braces (fields : Fields)
  /-- A table in braces whose key waits for its value. -/
  | keyed (fields : Fields) (path : List String) (key : String)
  deriving Repr

/-- What may come next. -/
inductive Awaits where
  /-- A line. -/
  | line
  /-- The end of the line. -/
  | lineEnd
  /-- The sign of a header has been read once. -/
  | header
  /-- The next part of a key; the parts so far, last one first. -/
  | part (purpose : Purpose) (parts : List String)
  /-- A dot, or what follows the key. -/
  | partEnd (purpose : Purpose) (parts : List String)
  /-- The second one of the signs that end the header of a listed table. -/
  | listedEnd (parts : List String)
  /-- A value. -/
  | value
  /-- The rest of a value without quotes; its characters so far. -/
  | scalar (chars : List Char)
  /-- A time behind a date and a space. -/
  | timeOfDay (date : List Char)
  /-- An item or the end of the array. -/
  | item
  /-- A comma or the end of the array. -/
  | itemEnd
  /-- A key or the end of the table. -/
  | field
  /-- A comma or the end of the table. -/
  | fieldEnd
  deriving Repr

/-- Where the reader stands. -/
structure State where
  /-- The entries of the document. -/
  root : Fields
  /-- The path to the table that the last header opened. -/
  current : List String
  /-- The path and the key of the line, where it has been read. -/
  target : List String × String
  /-- The open arrays and tables, innermost first. -/
  stack : List Frame
  /-- What may come next. -/
  awaits : Awaits
  deriving Repr

namespace State

/-- Nothing has been read. -/
def start : State := ⟨[], [], ([], ""), [], .line⟩

/-- Go on with other expectations. -/
def await (s : State) (a : Awaits) : State := { s with awaits := a }

/-- Go on with other expectations inside another stack. -/
def inside (s : State) (stack : List Frame) (a : Awaits) : State :=
  { s with stack := stack, awaits := a }

/-- How deeply arrays and tables in braces may be nested. -/
def depthLimit : Nat := 80

/-- Open an array or a table in braces. -/
def enter (s : State) (f : Frame) (a : Awaits) : Option State :=
  if s.stack.length < depthLimit then some (s.inside (f :: s.stack) a) else none

/-- A value has been read. -/
def give (s : State) (v : Value) : Option State :=
  match s.stack with
  | [] => do
    let root ← s.root.within s.current (Fields.put s.target.1 s.target.2 v)
    return { s with root := root, awaits := .lineEnd }
  | .array items :: outer => some (s.inside (.array (v :: items) :: outer) .itemEnd)
  | .keyed fields path key :: outer => do
    let fields ← fields.put path key v
    return s.inside (.braces fields :: outer) .fieldEnd
  | .braces _ :: _ => none

/-- Close the innermost array or table. -/
def leave (s : State) : Option State :=
  match s.stack with
  | .array items :: outer => { s with stack := outer }.give (.array items.reverse)
  | .braces fields :: outer => { s with stack := outer }.give fields.toValue
  | _ => none

/-- Whether a character may stand in a key without quotes. -/
def isKeyChar (c : Char) : Bool := c.isAlphanum || c == '_' || c == '-'

/-- The part of a key that a token is. -/
def part? : Token → Option String
  | .atom cs => if cs.all isKeyChar then some (String.ofList cs) else none
  | .text s false => some s
  | _ => none

/-- Read a token where a value has to stand. -/
def stepValue (s : State) : Token → Option State
  | .blank _ => some s
  | .text t _ => s.give (.text t)
  | .atom cs => some (s.await (.scalar cs))
  | .openBracket => s.enter (.array []) .item
  | .openBrace => s.enter (.braces []) .field
  | _ => none

/-- Read a token where a part of a key has to stand. -/
def stepPart (s : State) (p : Purpose) (parts : List String) (t : Token) : Option State :=
  match t, part? t with
  | .blank _, _ => some (s.await (.part p parts))
  | _, some k => some (s.await (.partEnd p (k :: parts)))
  | _, none => none

/-- The key of a line or of an entry in braces has been read. -/
def setTarget (s : State) (path : List String) (key : String) : Option State :=
  match s.stack with
  | [] => some { s with target := (path, key), awaits := .value }
  | .braces fields :: outer => some (s.inside (.keyed fields path key :: outer) .value)
  | _ => none

/-- Read a token behind a part of a key. -/
def stepPartEnd (s : State) (p : Purpose) (parts : List String) (t : Token) : Option State :=
  match t, p, parts with
  | .blank _, _, _ => some s
  | .dot, _, _ => some (s.await (.part p parts))
  | .equals, .entry, key :: path => s.setTarget path.reverse key
  | .closeBracket, .table, key :: path => do
    let root ← s.root.openTable path.reverse key
    return { s with root := root, current := parts.reverse, awaits := .lineEnd }
  | .closeBracket, .listed, _ => some (s.await (.listedEnd parts))
  | _, _, _ => none

/-- Read a token behind a complete value or header. -/
def stepEnd (s : State) (t : Token) : Option State :=
  match s.awaits, t with
  | .lineEnd, .newline => some (s.await .line)
  | .itemEnd, .newline | .fieldEnd, .newline => some s
  | .itemEnd, .comma => some (s.await .item)
  | .itemEnd, .closeBracket => s.leave
  | .fieldEnd, .comma => some (s.await .field)
  | .fieldEnd, .closeBrace => s.leave
  | _, .blank _ => some s
  | _, _ => none

/-- Read a token behind a value without quotes. -/
def afterScalar (s : State) (chars : List Char) (t : Token) : Option State := do
  let s ← s.give (← Value.ofScalar? chars)
  s.stepEnd t

/-- Read one token; `none` when it is not awaited. -/
def step (s : State) (t : Token) : Option State :=
  match s.awaits, t with
  | .line, .blank _ | .line, .newline => some s
  | .line, .openBracket => some (s.await .header)
  | .line, _ => s.stepPart .entry [] t
  | .header, .openBracket => some (s.await (.part .listed []))
  | .header, _ => s.stepPart .table [] t
  | .part p parts, _ => s.stepPart p parts t
  | .partEnd p parts, _ => s.stepPartEnd p parts t
  | .listedEnd parts, .closeBracket =>
    match parts with
    | key :: path => do
      let root ← s.root.addTable path.reverse key
      return { s with root := root, current := parts.reverse, awaits := .lineEnd }
    | [] => none
  | .listedEnd _, _ => none
  | .value, _ => s.stepValue t
  | .scalar cs, .atom more => some (s.await (.scalar (cs ++ more)))
  | .scalar cs, .dot => some (s.await (.scalar (cs ++ ['.'])))
  | .scalar cs, .blank ' ' =>
    if Value.isDate cs then some (s.await (.timeOfDay cs)) else s.afterScalar cs t
  | .scalar cs, _ => s.afterScalar cs t
  | .timeOfDay cs, .atom more => some (s.await (.scalar (cs ++ ' ' :: more)))
  | .timeOfDay cs, _ => s.afterScalar cs t
  | .item, .closeBracket => s.leave
  | .item, .newline => some s
  | .item, _ => s.stepValue t
  | .field, .closeBrace => s.leave
  | .field, .newline => some s
  | .field, .blank _ => some s
  | .field, _ => s.stepPart .entry [] t
  | .lineEnd, _ | .itemEnd, _ | .fieldEnd, _ => s.stepEnd t

/-- The entries of the document, unless it ends in the middle of a line. -/
def finish (s : State) : Option Fields :=
  match s.awaits with
  | .line => some s.root
  | _ => none

end State

/-- The entries of a document, by ascending key. -/
def parse? (document : String) : Option (List (String × Value)) := do
  let tokens := Token.ofChars document.toList ++ [.newline]
  let s ← tokens.foldlM State.step State.start
  return ascending (fieldValues (← s.finish))

end NodeLending.Toml
