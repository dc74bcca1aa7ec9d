import NodeLending.Name
import NodeLending.Namespace
import NodeLending.Text.Blank
import NodeLending.Url.Parse

/-!
# Parties

A party borrows nodes of the pool. It has a name, the URL under which it is reached, and possibly
a reference to its credentials. The URL always ends with a slash: a slash is put behind its text
before it is read, so the slash lands wherever the text ends.

Below its URL a party has one endpoint, which belongs to the repository that is asked for first.

## Main definitions

* `Party`, and `Party.of?`, which checks its parts.
* `Party.endpoint`, and `Party.Contact` for a party that is asked several times.
* `PartyError`: why there is no such party.
-/

namespace NodeLending

/-- Why there is no such party. -/
inductive PartyError where
  /-- The name is no name. -/
  | name (e : NameError)
  /-- The URL is no URL. -/
  | url (text : String) (e : Url.ParseError)
  /-- The URL names no machine. -/
  | hostless (text : String)
  deriving DecidableEq, Repr

/-- The wording of a party error. -/
def PartyError.message : PartyError → String
  | .name e => s!"invalid party name: {e.message}"
  | .url text e => s!"invalid party url '{text}': {e.message}"
  | .hostless text => s!"invalid party url '{text}': not a hierarchical URL with a host"

/-- A party that borrows nodes. -/
structure Party where
  /-- The name. -/
  name : PartyName
  /-- The URL under which the party is reached. -/
  url : Url
  /-- A reference to its credentials. -/
  credential : Option String
  deriving DecidableEq, Repr

namespace Party

/-- The text of a URL without blanks at its ends and with a slash behind it. -/
def slashedText (url : String) : String :=
  let cs := Text.trimChars url.toList
  String.ofList (if cs.getLast? = some '/' then cs else cs ++ ['/'])

/-- A reference to credentials; a blank one is none. -/
def credential? (s : Option String) : Option String :=
  (s.map Text.trim).filter (· ≠ "")

/-- The party with a URL, a name and a reference to credentials. The name is checked first. -/
def of? [Url.Idna] (url name : String) (credential : Option String) : Except PartyError Party := do
  let name ← (Name.parse? .party name).mapError .name
  let text := slashedText url
  let url ← (Url.parse? text).mapError (.url text)
  if url.isBase ∧ url.hasHost then return ⟨name, url, credential? credential⟩
  else .error (.hostless text)

/-- The endpoint of a party for a repository. -/
def endpoint (p : Party) (repository : String) : Url :=
  p.url.resolve [(Namespace.ofRepository repository).text, ""]

/-- The text by which a party is shown. -/
def text (p : Party) : String := p.name.text ++ ":" ++ p.url.text

instance : ToString Party := ⟨text⟩

/-- A party and the endpoint that it has been given. -/
structure Contact where
  /-- The party. -/
  party : Party
  /-- The endpoint, once a repository has been asked for. -/
  known : Option Url
  deriving DecidableEq, Repr

/-- A party that has not been asked. -/
def contact (p : Party) : Contact := ⟨p, none⟩

/-- Ask for the endpoint of a repository; the first answer stays. -/
def Contact.ask (c : Contact) (repository : String) : Url × Contact :=
  let url := c.known.getD (c.party.endpoint repository)
  (url, { c with known := some url })

/-- The answers for several repositories in turn. -/
def Contact.askAll (c : Contact) : List String → List Url
  | [] => []
  | r :: rest => (c.ask r).1 :: (c.ask r).2.askAll rest

end Party

end NodeLending
