import NodeLending.Toml.Value

/-!
# Tables that are built up

A document gives the entries of a table in several ways, and where a table comes from decides what
may still be added to it. A header `[a.b]` opens the table `b` and passes through `a`, which then
exists without having been opened itself; a header may open such a table later. A dotted key `a.b`
passes through `a` too, but `a` then belongs to the table in which the key stands: only dotted keys
put entries into it, and no header opens it. A table written in braces is complete. A header
`[[a]]` adds a table to a list, and headers that pass through the list go to its last table.

## Main definitions

* `Toml.Item`: a value, or a table or list of tables that is still open.
* `Toml.Fields.put`: the entry of a key.
* `Toml.Fields.openTable`, `Toml.Fields.addTable`: the two kinds of headers.
-/

namespace NodeLending.Toml

/-- Where an open table comes from. -/
inductive Origin where
  /-- A header or a dotted key passes through it to an inner table. -/
  | passed
  /-- A dotted key gave its first entry. -/
  | dotted
  /-- A header opened it. -/
  | opened
  deriving DecidableEq, Repr

/-- What stands under a key. -/
inductive Item where
  /-- A complete value. -/
  | value (v : Value)
  /-- A table. -/
  | table (origin : Origin) (fields : List (String × Item))
  /-- A list of tables, the last one first. -/
  | tables (last : List (String × Item)) (earlier : List (List (String × Item)))
  deriving Repr

/-- The entries of an open table, in no particular order. -/
abbrev Fields := List (String × Item)

namespace Fields

/-- Replace what stands under a key. -/
def set (key : String) (i : Item) : Fields → Fields
  | [] => [(key, i)]
  | (k, j) :: rest => if k = key then (key, i) :: rest else (k, j) :: set key i rest

/-- Change the table that a path leads to. `viaDots` says that the path belongs to a dotted key,
which passes through no table that a header opened. -/
def update (viaDots : Bool) (change : Fields → Option Fields) : List String → Fields → Option Fields
  | [], fields => change fields
  | key :: path, fields =>
    match fields.lookup key with
    | none => do
      let inner ← update viaDots change path []
      return fields.set key (.table (if viaDots then .dotted else .passed) inner)
    | some (.table origin inner) =>
      if viaDots ∧ origin = .opened then none
      else do
        let inner ← update viaDots change path inner
        return fields.set key (.table origin inner)
    | some (.tables last earlier) => do
      let last ← update viaDots change path last
      return fields.set key (.tables last earlier)
    | some (.value _) => none

/-- Whether the table that a dotted key leads to takes its entry. -/
def takesDotted : List String → Fields → Bool
  | [], _ => true
  | [key], fields =>
    match fields.lookup key with
    | none => true
    | some (.table origin _) => origin == .dotted
    | _ => false
  | key :: path, fields =>
    match fields.lookup key with
    | some (.table _ inner) => takesDotted path inner
    | some (.tables last _) => takesDotted path last
    | _ => true

/-- Give a key its value, which no key has yet. -/
def put (path : List String) (key : String) (v : Value) (fields : Fields) : Option Fields :=
  if fields.takesDotted path then
    fields.update true
      (fun inner => if (inner.lookup key).isSome then none else some (inner.set key (.value v)))
      path
  else none

/-- Open the table of a header. -/
def openTable (path : List String) (key : String) (fields : Fields) : Option Fields :=
  fields.update false
    (fun inner =>
      match inner.lookup key with
      | none => some (inner.set key (.table .opened []))
      | some (.table .passed entries) => some (inner.set key (.table .opened entries))
      | some _ => none)
    path

/-- Add a table to the list of a header. -/
def addTable (path : List String) (key : String) (fields : Fields) : Option Fields :=
  fields.update false
    (fun inner =>
      match inner.lookup key with
      | none => some (inner.set key (.tables [] []))
      | some (.tables last earlier) => some (inner.set key (.tables [] (last :: earlier)))
      | some _ => none)
    path

/-- Change the table that the last header opened. -/
def within (header : List String) (change : Fields → Option Fields) (fields : Fields) :
    Option Fields :=
  fields.update false change header

end Fields

/-! ### The finished tables -/

/-- Entries by ascending key. -/
def ascending (entries : List (String × Value)) : List (String × Value) :=
  (Keyed.ofList entries).entries

mutual

/-- The value of an item when nothing more is added. -/
def Item.toValue : Item → Value
  | .value v => v
  | .table _ fields => .table (ascending (fieldValues fields))
  | .tables last earlier =>
    .array ((.table (ascending (fieldValues last)) :: tableValues earlier).reverse)

/-- The values of the entries of a table. -/
def fieldValues : List (String × Item) → List (String × Value)
  | [] => []
  | (k, i) :: rest => (k, i.toValue) :: fieldValues rest

/-- The values of tables. -/
def tableValues : List (List (String × Item)) → List Value
  | [] => []
  | fields :: rest => .table (ascending (fieldValues fields)) :: tableValues rest

end

/-- The value of a table when nothing more is added. -/
def Fields.toValue (fields : Fields) : Value := .table (ascending (fieldValues fields))

end NodeLending.Toml
