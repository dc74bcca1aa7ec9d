import NodeLending.Text.Split

/-!
# Media types

A media type is a type and a subtype with a slash between them, and parameters behind semicolons.
The part of a subtype behind its last plus sign is a suffix that names the format which the subtype
builds upon. Letters count without regard to their case.

## Main definitions

* `MediaType.parse?`, and `MediaType.isJson`.
* `MediaType.Parameters.accepts`: whether a text lists parameters.
-/

namespace NodeLending.Api

/-- A media type without its parameters. -/
structure MediaType where
  /-- The type. -/
  type : String
  /-- The subtype without its suffix. -/
  subtype : String
  /-- The suffix. -/
  suffix : Option String
  deriving DecidableEq, Repr

namespace MediaType

/-- The marks that may stand in a token. -/
def tokenMarks : String := "!#$%&\x27*+-.^_\x60|~"

/-- Whether a character may stand in a token. -/
def isToken (c : Char) : Bool := c.isAlphanum || tokenMarks.toList.contains c

/-! ### Parameters -/

namespace Parameters

/-- A place in a list of parameters. -/
inductive Place where
  /-- In front of a name. -/
  | front
  /-- In a name. -/
  | name
  /-- In front of a value. -/
  | equals
  /-- In a value. -/
  | value
  /-- Behind an opening quote. -/
  | opened
  /-- In a quoted value. -/
  | quoted
  /-- Behind a quoted value. -/
  | closed
  deriving DecidableEq, Repr

/-- Whether a character may stand in a quoted value. -/
def isQuotable (c : Char) : Bool := ' ' ≤ c && c ≤ '~'

/-- The place behind a character. A quote that directly follows the opening one is part of the
value. -/
def next (p : Place) (c : Char) : Option Place :=
  match p with
  | .front => if c = ' ' then some .front else if isToken c then some .name else none
  | .name => if isToken c then some .name else if c = '=' then some .equals else none
  | .equals => if c = '"' then some .opened else if isToken c then some .value else none
  | .value => if isToken c then some .value else if c = ';' then some .front else none
  | .opened => if isQuotable c then some .quoted else none
  | .quoted => if c = '"' then some .closed else if isQuotable c then some .quoted else none
  | .closed => if c = ' ' then some .closed else if c = ';' then some .front else none

/-- Whether a list may end at a place. -/
def isEnd : Place → Bool
  | .front | .equals | .value | .closed => true
  | .name | .opened | .quoted => false

/-- Whether a text lists parameters. -/
def accepts (cs : List Char) : Bool := (cs.foldlM next .front).any isEnd

end Parameters

/-! ### Types -/

/-- The text of characters without regard to their case. -/
def folded (cs : List Char) : String := String.ofList (cs.map Char.toLower)

/-- A subtype without its suffix, and the suffix. A plus sign in front starts no suffix. -/
def cutSuffix (cs : List Char) : List Char × Option (List Char) :=
  match Text.cutAt (· == '+') cs.reverse with
  | (suffix, '+' :: c :: front) => ((c :: front).reverse, some suffix.reverse)
  | _ => (cs, none)

/-- Read a media type. -/
def parse? (s : String) : Option MediaType :=
  match Text.cutAt (fun c => !isToken c) s.toList with
  | (type, '/' :: rest) =>
    let (subtype, parameters) := Text.cutAt (fun c => !isToken c) rest
    let (stem, suffix) := cutSuffix subtype
    let found := some ⟨folded type, folded stem, suffix.map folded⟩
    if type.isEmpty then none
    else
      match parameters with
      | [] => found
      | ';' :: ps => if !subtype.isEmpty && Parameters.accepts ps then found else none
      | _ => none
  | _ => none

/-- Whether the media type stands for JSON. -/
def isJson (m : MediaType) : Bool :=
  m.type == "application" && (m.subtype == "json" || m.suffix == some "json")

/-- Whether a text is a media type that stands for JSON. -/
def isJsonText (s : String) : Bool := (parse? s).any isJson

end MediaType

end NodeLending.Api
