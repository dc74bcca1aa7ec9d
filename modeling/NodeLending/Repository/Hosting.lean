import NodeLending.Repository.Directory
import NodeLending.Repository.FileTree

/-!
# Hosted repositories

A repository is hosted somewhere, changes there from time to time, and may be out of reach until it
is published again.

## Main definitions

* `Hosting`, with `Hosting.publish`, `Hosting.patch`, `Hosting.cutOff` and `Hosting.fetch`.
-/

namespace NodeLending

/-- A repository where it is hosted. -/
structure Hosting where
  /-- The files of its latest revision. -/
  files : FileTree
  /-- Why it is out of reach. -/
  outage : Option String
  /-- How many fetches have begun. -/
  fetches : Nat
  deriving DecidableEq, Repr

namespace Hosting

/-- A repository that can be reached and has not been fetched yet. -/
def new (files : FileTree) : Hosting := ⟨files, none, 0⟩

/-- Publish a revision. -/
def publish (h : Hosting) (files : FileTree) : Hosting := { h with files, outage := none }

/-- Publish a revision without some of the files and with others in it. -/
def patch (h : Hosting) (removed : List String) (added : List (String × String)) : Hosting :=
  let kept := removed.foldl Keyed.erase h.files.files
  h.publish ⟨added.foldl (fun files e => files.insert e.1 e.2) kept⟩

/-- From now on the repository is out of reach. -/
def cutOff (h : Hosting) (reason : String) : Hosting := { h with outage := some reason }

/-- A fetch begins. -/
def beginFetch (h : Hosting) : Hosting := { h with fetches := h.fetches + 1 }

/-- What a fetch from a location brings when it ends now. -/
def fetch (h : Hosting) (location : String) : Except FetchError FileTree :=
  match h.outage with
  | some reason => .error (.unreachable location reason)
  | none => .ok h.files

end Hosting

end NodeLending
