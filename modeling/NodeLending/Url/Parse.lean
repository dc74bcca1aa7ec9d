import NodeLending.Text.Split
import NodeLending.Url.Basic
import NodeLending.Url.Idna

/-!
# Reading URLs

A text is read from left to right: the scheme, the user in front of the last at sign, the host, the
port, the path, the query and the fragment. Control characters and spaces at both ends, and tabs
and line ends anywhere, are passed over. The schemes of the web are special: a host is required,
a backslash counts as a slash, the host is a domain or an address, and the path is never empty.

A host that is given as a domain is percent-decoded and taken to ASCII.

## Main definitions

* `Url.ParseError`: why a text is no URL.
* `Url.parse?`: the URL of a text.
-/

namespace NodeLending.Url

/-- Why a text is no URL. -/
inductive ParseError where
  /-- There is no scheme. -/
  | relative
  /-- There is no host where one is required. -/
  | emptyHost
  /-- The port is no number of sixteen bits. -/
  | invalidPort
  /-- The host ends in a number and is no IPv4 address. -/
  | invalidV4
  /-- The host stands in brackets and is no IPv6 address. -/
  | invalidV6
  /-- The host holds a character that no domain may hold. -/
  | invalidDomain
  /-- The host of a scheme of no special kind holds a character that no host may hold. -/
  | invalidHostCharacter
  deriving DecidableEq, Repr

/-- The wording of a parse error. -/
def ParseError.message : ParseError → String
  | .relative => "relative URL without a base"
  | .emptyHost => "empty host"
  | .invalidPort => "invalid port number"
  | .invalidV4 => "invalid IPv4 address"
  | .invalidV6 => "invalid IPv6 address"
  | .invalidDomain => "invalid international domain name"
  | .invalidHostCharacter => "invalid domain character"

/-! ### Schemes -/

/-- The special schemes with the ports they imply. -/
def specialSchemes : List (String × Option Nat) :=
  [("http", some 80), ("https", some 443), ("ws", some 80), ("wss", some 443), ("ftp", some 21),
    ("file", none)]

/-- Whether a scheme is special. -/
def isSpecial (scheme : String) : Bool := (specialSchemes.lookup scheme).isSome

/-- The port that a scheme implies. -/
def impliedPort? (scheme : String) : Option Nat := (specialSchemes.lookup scheme).join

/-- Whether a character may stand in a scheme. -/
def isSchemeChar (c : Char) : Bool := c.isAlphanum || c == '+' || c == '-' || c == '.'

/-- The scheme in lower case, and what stands behind its colon. -/
def scheme? (cs : List Char) : Option (String × List Char) :=
  match Text.cutAt (fun c => !isSchemeChar c) cs with
  | (c :: s, ':' :: rest) =>
    if c.isAlpha then some (String.ofList ((c :: s).map Char.toLower), rest) else none
  | _ => none

/-! ### Users -/

/-- The characters that are encoded in a path. -/
def pathSet : String := " \"<>\x60#?\x7b\x7d"

/-- The characters that are encoded in a user. -/
def userSet : String := pathSet ++ "/:;=@[\\]^|"

/-- Whether a character ends the part that names the machine. -/
def endsAuthority (special : Bool) (c : Char) : Bool :=
  c == '/' || c == '?' || c == '#' || (special && c == '\\')

/-- Cut a text at its last at sign. -/
def cutAtLastAt (cs : List Char) : Option (List Char × List Char) :=
  let back := (cs.reverse.dropWhile (· != '@'))
  match back with
  | [] => none
  | _ :: user => some (user.reverse, cs.drop back.length)

/-- The user and the password of a URL, and what stands behind their at sign. -/
def user? (special : Bool) (cs : List Char) : Except ParseError (String × String × List Char) :=
  let (authority, rest) := Text.cutAt (endsAuthority special) cs
  match cutAtLastAt authority with
  | none => .ok ("", "", cs)
  | some (user, host) =>
    if user = [] ∧ host = [] ∧ rest ≠ [] then .error .emptyHost
    else
      let (name, password) := Text.cutAt (· == ':') user
      .ok (percentEncode userSet name, percentEncode userSet password.tail, host ++ rest)

/-! ### Hosts -/

/-- Whether no host may hold a character. -/
def isForbiddenInHost (c : Char) : Bool :=
  c.toNat = 0 || "\t\n\r #/:<>?@[\\]^|".toList.contains c

/-- The value of a part of an IPv4 address: a decimal, octal or hexadecimal number, or none that
fits an address. -/
def v4Part (cs : List Char) : Option Nat :=
  let number (base : Nat) (ds : List Char) : Option Nat := do
    let values ← ds.mapM Text.hexValue?
    if values.all (· < base) then some (values.foldl (fun n d => n * base + d) 0) else none
  match cs with
  | [] => none
  | '0' :: 'x' :: ds | '0' :: 'X' :: ds => number 16 ds
  | '0' :: d :: ds => number 8 (d :: ds)
  | ds => number 10 ds

/-- The parts of a domain, without an empty one at the end. -/
def domainParts (cs : List Char) : List (List Char) :=
  let parts := Text.splitAt (· == '.') cs
  if parts.getLast? = some [] then parts.dropLast else parts

/-- Whether the last part of a domain is a number, so that the domain has to be an address. -/
def endsInNumber (cs : List Char) : Bool :=
  match (domainParts cs).getLast? with
  | none | some [] => false
  | some last => last.all Char.isDigit || (v4Part last).isSome

/-- The address of numbers; the last one fills the bytes that are left. -/
def v4OfParts (numbers : List Nat) : Option Address.V4 :=
  match numbers.reverse with
  | [] => none
  | last :: front =>
    if numbers.length ≤ 4 ∧ front.all (· < 256) ∧ last < Nat.pow 256 (5 - numbers.length) then
      let high := front.reverse.foldl (fun n d => n * 256 + d) 0
      some ⟨UInt32.ofNat (high * Nat.pow 256 (5 - numbers.length) + last)⟩
    else none

/-- The IPv6 address between brackets. -/
def bracketed (cs : List Char) : Except ParseError Host :=
  match cs.reverse with
  | ']' :: inside =>
    match Address.V6.parse? inside.reverse with
    | some a => .ok (.v6 a)
    | none => .error .invalidV6
  | _ => .error .invalidV6

/-- The host that a domain names. -/
def domain? [Idna] (cs : List Char) : Except ParseError Host :=
  match cs with
  | '[' :: inside => bracketed inside
  | _ =>
    match Idna.toAscii? (percentDecode cs) with
    | none => .error .invalidDomain
    | some domain =>
      if domain = "" then .error .emptyHost
      else if endsInNumber domain.toList then
        match (domainParts domain.toList).mapM v4Part >>= v4OfParts with
        | some a => .ok (.v4 a)
        | none => .error .invalidV4
      else .ok (.name domain)

/-- Every step to ASCII reads a plain domain alike. -/
theorem domain?_of_plain (i j : Idna) {cs : List Char} (h : Idna.Plain (String.ofList cs))
    (hplain : ∀ c ∈ cs, c ≠ '%') : @domain? i cs = @domain? j cs := by
  have hascii (k : Idna) : k.toAscii? (percentDecode cs) = Idna.lowered? cs := by
    have hdomain := k.toAscii?_utf8 (String.ofList cs) h
    rwa [Text.utf8, String.toList_ofList, ← percentDecode_of_forall hplain] at hdomain
  simp only [domain?, hascii]

/-- The host of a scheme of no special kind. -/
def plainHost? (cs : List Char) : Except ParseError Host :=
  match cs with
  | [] => .ok .empty
  | '[' :: inside => bracketed inside
  | _ =>
    if cs.any isForbiddenInHost then .error .invalidHostCharacter
    else .ok (.name (percentEncode "" cs))

/-- Cut a text behind the host, which a colon ends that does not stand in brackets. -/
def cutHost (special inBrackets : Bool) : List Char → List Char × List Char
  | [] => ([], [])
  | c :: cs =>
    if endsAuthority special c ∨ (c = ':' ∧ ¬inBrackets) then ([], c :: cs)
    else
      let (host, rest) := cutHost special (c == '[' || (inBrackets && c != ']')) cs
      (c :: host, rest)

/-- The port behind a colon, and the rest. -/
def port? (scheme : String) (cs : List Char) : Except ParseError (Option Nat × List Char) :=
  let (digits, rest) := Text.cutAt (fun c => !c.isDigit) cs
  match rest with
  | c :: _ => if endsAuthority true c then finish digits rest else .error .invalidPort
  | [] => finish digits rest
where
  /-- The number of the digits, unless the scheme implies it. -/
  finish (digits rest : List Char) : Except ParseError (Option Nat × List Char) :=
    match digits with
    | [] => .ok (none, rest)
    | _ =>
      match Numeral.readDigits 65535 0 digits with
      | .ok n => .ok (if impliedPort? scheme = some n then none else some n, rest)
      | .error _ => .error .invalidPort

/-- The host and the port, and the rest. -/
def hostAndPort? [Idna] (scheme : String) (cs : List Char) :
    Except ParseError (Host × Option Nat × List Char) := do
  let special := isSpecial scheme
  let (text, rest) := cutHost special false cs
  if special ∧ text = [] then .error .emptyHost
  let host ← if special then domain? text else plainHost? text
  match rest with
  | ':' :: digits =>
    if host = .empty then .error .emptyHost
    let (port, rest) ← port? scheme digits
    return (host, port, rest)
  | _ => return (host, none, rest)

/-! ### Paths -/

/-- Whether a segment stands for the place it is in. -/
def isSingleDot (s : List Char) : Bool :=
  s.map Char.toLower ∈ [['.'], ['%', '2', 'e']]

/-- Whether a segment stands for the place further up. -/
def isDoubleDot (s : List Char) : Bool :=
  s.map Char.toLower ∈
    [['.', '.'], ['.', '%', '2', 'e'], ['%', '2', 'e', '.'], ['%', '2', 'e', '%', '2', 'e']]

/-- Put segments behind those that have been read. -/
def addSegments (read : List String) : List (List Char) → List String
  | [] => read
  | s :: rest =>
    let last := if rest.isEmpty then [""] else []
    if isDoubleDot s then addSegments (read.dropLast ++ last) rest
    else if isSingleDot s then addSegments (read ++ last) rest
    else addSegments (read ++ [percentEncode pathSet s]) rest

/-- The segments of a path. -/
def segments (special : Bool) (cs : List Char) : List String :=
  let isSlash (c : Char) : Bool := c == '/' || (special && c == '\\')
  match cs with
  | [] => if special then [""] else []
  | c :: rest => addSegments [] (Text.splitAt isSlash (if isSlash c then rest else c :: rest))

/-- The path, the query and the fragment of what stands behind the host. -/
def withRest (special : Bool) (cs : List Char) (build : List Char → Path) (u : Url) : Url :=
  let (front, fragment) := Text.cutAt (· == '#') cs
  let (path, query) := Text.cutAt (· == '?') front
  let set := " \"#<>" ++ if special then "'" else ""
  { u with
    path := build path
    query := if query.isEmpty then none else some (percentEncode set query.tail)
    fragment :=
      if fragment.isEmpty then none else some (percentEncode " \"<>\x60" fragment.tail) }

/-! ### URLs -/

/-- A URL of which only the scheme is known. -/
def ofScheme (scheme : String) : Url := ⟨scheme, "", "", none, none, .segments [], none, none⟩

/-- The URL behind the two slashes of its scheme. -/
def afterSlashes [Idna] (scheme : String) (cs : List Char) : Except ParseError Url := do
  let special := isSpecial scheme
  let (username, password, cs') ← user? special cs
  let (host, port, rest) ← hostAndPort? scheme cs'
  if host = .empty ∧ ¬(username = "" ∧ password = "") then .error .emptyHost
  return withRest special rest (fun path => .segments (segments special path))
    { ofScheme scheme with username, password, host := some host, port }

/-- Whether a text is a letter with a colon or a bar behind it. -/
def isDrive (cs : List Char) : Bool :=
  match cs with
  | [c, d] => c.isAlpha && (d == ':' || d == '|')
  | _ => false

/-- The segments of the path of a file, which starts with no empty segment. -/
def fileSegments (path : List Char) : List String :=
  match (segments true path).dropWhile (· == "") with
  | [] => [""]
  | ss => ss

/-- The URL of a file on a machine. A drive letter at the start of the path leaves no room for a
host. -/
def fileOn (host : Host) (cs : List Char) : Url :=
  let u := withRest true cs (fun path => .segments (fileSegments path)) (ofScheme "file")
  match u.path with
  | .segments (first :: rest) =>
    if isDrive first.toList then
      { u with
        host := some .empty, path := .segments ((String.ofList [first.toList.headD ' ', ':']) :: rest) }
    else { u with host := some host }
  | _ => { u with host := some host }

/-- The URL of a file. -/
def file [Idna] (cs : List Char) : Except ParseError Url :=
  let isSlash (c : Char) : Bool := c == '/' || c == '\\'
  match cs with
  | a :: b :: rest =>
    if isSlash a ∧ isSlash b then
      let (host, path) := Text.cutAt (endsAuthority true) rest
      if host = [] ∨ isDrive host then .ok (fileOn .empty rest)
      else do
        let h ← domain? host
        return fileOn (if h = .name "localhost" then .empty else h) path
    else .ok (fileOn .empty cs)
  | _ => .ok (fileOn .empty cs)

/-- Whether a character is passed over at both ends. -/
def isOuter (c : Char) : Bool := c.toNat ≤ 0x20

/-- The characters of a text that count. -/
def counting (cs : List Char) : List Char :=
  ((cs.dropWhile isOuter).reverse.dropWhile isOuter).reverse.filter
    fun c => !(c == '\t' || c == '\n' || c == '\r')

/-- The URL of a text. -/
def parse? [Idna] (s : String) : Except ParseError Url :=
  match scheme? (counting s.toList) with
  | none => .error .relative
  | some (scheme, rest) =>
    if scheme = "file" then file rest
    else if isSpecial scheme then
      afterSlashes scheme (rest.dropWhile fun c => c == '/' || c == '\\')
    else
      match rest with
      | '/' :: '/' :: rest => afterSlashes scheme rest
      | '/' :: _ =>
        .ok (withRest false rest (fun path => .segments (segments false path)) (ofScheme scheme))
      | _ =>
        .ok (withRest false rest (fun path => .whole (percentEncode "" path)) (ofScheme scheme))

end NodeLending.Url
