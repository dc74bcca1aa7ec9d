import NodeLending.Address.V6
import NodeLending.Text.Hex
import NodeLending.Text.Utf8

/-!
# URLs

A URL in its normal form: its parts are lower-cased, percent-encoded and free of dot segments as
far as the standard asks for it, so two URLs are the same exactly when they are equal.

## Main definitions

* `Url`, its parts, and `Url.text`.
* `Url.percentEncode`: the encoding of a part.
* `Url.resolve`: the URL of a relative path.
-/

namespace NodeLending

namespace Url

/-- What a URL says about the machine. -/
inductive Host where
  /-- There is room for a host, and it is empty. -/
  | empty
  /-- A name. -/
  | name (s : String)
  /-- An IPv4 address. -/
  | v4 (a : Address.V4)
  /-- An IPv6 address. -/
  | v6 (a : Address.V6)
  deriving DecidableEq, Repr

/-- The text of a host. -/
def Host.text : Host → String
  | empty => ""
  | name s => s
  | v4 a => a.text
  | v6 a => "[" ++ a.text ++ "]"

/-- The path of a URL. -/
inductive Path where
  /-- A text that is not cut into segments; nothing is relative to it. -/
  | whole (s : String)
  /-- Segments, each behind a slash. -/
  | segments (segments : List String)
  deriving DecidableEq, Repr

/-- The text of a path. -/
def Path.text : Path → String
  | whole s => s
  | segments ss => String.join (ss.map ("/" ++ ·))

theorem Path.text_append (ss ts : List String) :
    (segments (ss ++ ts)).text = (segments ss).text ++ (segments ts).text := by
  rw [text, text, text, List.map_append, String.join_append]

end Url

/-- A URL. -/
structure Url where
  /-- The scheme. -/
  scheme : String
  /-- The name of a user. -/
  username : String
  /-- The password of the user. -/
  password : String
  /-- The host, if there is room for one. -/
  host : Option Url.Host
  /-- The port, unless it is the one that the scheme implies. -/
  port : Option Nat
  /-- The path. -/
  path : Url.Path
  /-- What stands behind the question mark. -/
  query : Option String
  /-- What stands behind the number sign. -/
  fragment : Option String
  deriving DecidableEq, Repr

namespace Url

/-- Whether a path can be relative to the URL. -/
def isBase (u : Url) : Bool :=
  match u.path with
  | .whole _ => false
  | .segments _ => true

/-- Whether the URL names a machine. -/
def hasHost (u : Url) : Bool :=
  match u.host with
  | none | some .empty => false
  | _ => true

/-- The user and the password, in front of the host. -/
def userText (u : Url) : String :=
  if u.username = "" ∧ u.password = "" then ""
  else u.username ++ (if u.password = "" then "" else ":" ++ u.password) ++ "@"

/-- The text between the scheme and the path. A path without host that starts with two slashes is
set off by a point, because it would read as a host. -/
def authorityText (u : Url) : String :=
  match u.host, u.path with
  | some h, _ =>
    "//" ++ u.userText ++ h.text ++ (u.port.map fun p => ":" ++ toString p).getD ""
  | none, .segments ("" :: _ :: _) => "/."
  | none, _ => ""

/-- The text of a URL. -/
def text (u : Url) : String :=
  u.scheme ++ ":" ++ u.authorityText ++ u.path.text ++
    (u.query.map ("?" ++ ·)).getD "" ++ (u.fragment.map ("#" ++ ·)).getD ""

instance : ToString Url := ⟨text⟩

/-! ### Percent-encoding -/

/-- An encoded byte. -/
def encodeByte (b : UInt8) : List Char :=
  '%' :: (Text.hexByte b).map Char.toUpper

/-- Whether a character is encoded everywhere: it is no printable character of ASCII. -/
def isAlwaysEncoded (c : Char) : Bool := c.toNat < 0x20 || 0x7F ≤ c.toNat

/-- Encode the characters of `set`, and those that are always encoded. -/
def percentEncode (set : String) (cs : List Char) : String :=
  String.ofList (cs.flatMap fun c =>
    if isAlwaysEncoded c || set.toList.contains c then
      (String.utf8EncodeChar c).flatMap encodeByte
    else [c])

/-- The bytes of a text in which encoded bytes have been decoded. -/
def percentDecode : List Char → List UInt8
  | '%' :: a :: b :: rest =>
    match Text.hexValue? a, Text.hexValue? b with
    | some high, some low => UInt8.ofNat (high * 16 + low) :: percentDecode rest
    | _, _ => String.utf8EncodeChar '%' ++ percentDecode (a :: b :: rest)
  | c :: rest => String.utf8EncodeChar c ++ percentDecode rest
  | [] => []

/-- A text without percent signs stands for its own bytes. -/
theorem percentDecode_of_forall {cs : List Char} (h : ∀ c ∈ cs, c ≠ '%') :
    percentDecode cs = cs.flatMap String.utf8EncodeChar := by
  induction cs with
  | nil => rfl
  | cons c cs ih =>
    have hc := h c List.mem_cons_self
    rw [percentDecode, ih fun d hd => h d (List.mem_cons_of_mem c hd), List.flatMap_cons]
    exact fun _ _ _ heq _ => hc heq

/-! ### Relative paths -/

/-- The URL of a path relative to another URL. The segments are plain: they hold no character
that would have to be encoded and are no dot segments. What stands behind the last slash of the
path, and the query and the fragment, are dropped. -/
def resolve (u : Url) (relative : List String) : Url :=
  match u.path with
  | .segments ss => { u with path := .segments (ss.dropLast ++ relative), query := none, fragment := none }
  | .whole _ => u

/-- Let the path end with a slash. -/
def slashed (u : Url) : Url :=
  match u.path with
  | .segments ss =>
    if ss.getLast? = some "" then u else { u with path := .segments (ss ++ [""]) }
  | .whole _ => u

/-- What stands behind the last slash of such a path is empty. -/
theorem path_slashed {u : Url} (h : u.isBase = true) :
    ∃ folder, u.slashed.path = .segments (folder ++ [""]) := by
  cases hpath : u.path with
  | whole s => rw [isBase, hpath] at h; cases h
  | segments ss =>
    simp only [slashed, hpath]
    split
    next hlast =>
      obtain ⟨folder, hfolder⟩ := List.getLast?_eq_some_iff.mp hlast
      exact ⟨folder, by rw [hpath, hfolder]⟩
    next => exact ⟨ss, rfl⟩

end Url

end NodeLending
