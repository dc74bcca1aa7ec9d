import NodeLending.Text.Encoding
import NodeLending.Text.Split

/-!
# International domain names

The domain of a URL is taken to ASCII: characters outside ASCII are mapped and encoded, and labels
that are encoded already are checked. The tables behind this are no part of the library, so the step
is named here and can be any one that leaves plain domains as they are. A domain is plain if it
stands in ASCII and has no encoded label; letters are lower-cased, and some characters are not let
through.

The step `Idna.ascii` does without tables. It knows no domains outside ASCII.

## Main definitions

* `Url.Idna`: the step.
* `Url.Idna.ascii`: the step for domains in ASCII.
-/

namespace NodeLending.Url

/-- Whether no domain may hold a character. -/
def isForbiddenInDomain (c : Char) : Bool :=
  c.toNat ≤ 0x20 || 0x7F ≤ c.toNat || "%#/:<>?@[\\]^|".toList.contains c

namespace Idna

/-- A plain domain: it stands in ASCII, and no label is an encoded one. -/
structure Plain (domain : String) : Prop where
  /-- The domain stands in ASCII. -/
  ascii : ∀ c ∈ domain.toList, c.toNat < 0x80
  /-- Encoded labels start with a mark of their own. -/
  unencoded : ∀ label ∈ Text.splitAt (· == '.') (domain.toList.map Char.toLower),
    label.take 4 ≠ ['x', 'n', '-', '-']

/-- A domain in lower case, unless it holds a character that no domain may hold. -/
def lowered? (cs : List Char) : Option String :=
  let cs := cs.map Char.toLower
  if cs.any isForbiddenInDomain then none else some (String.ofList cs)

end Idna

/-- The step that takes a domain to ASCII. -/
class Idna where
  /-- The domain of its bytes in ASCII, unless they are no domain name. -/
  toAscii? : List UInt8 → Option String
  /-- Plain domains are only lower-cased. -/
  toAscii?_utf8 : ∀ domain : String, Idna.Plain domain →
    toAscii? (Text.utf8 domain) = Idna.lowered? domain.toList

/-- The step for domains in ASCII. -/
instance Idna.ascii : Idna where
  toAscii? bytes := lowered? (Text.ofUtf8 bytes).toList
  toAscii?_utf8 domain _ := by rw [Text.ofUtf8_utf8]

end NodeLending.Url
