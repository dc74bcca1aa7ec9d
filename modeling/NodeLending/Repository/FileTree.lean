import NodeLending.Keyed

/-!
# File trees

A repository is looked at as its files, each known by its path from the root with slashes between
the parts.

## Main definitions

* `FileTree`, with `FileTree.content?` and `FileTree.directory`.
-/

namespace NodeLending

/-- The files of a repository by their paths. -/
structure FileTree where
  /-- The files. -/
  files : Keyed String String
  deriving DecidableEq, Repr

namespace FileTree

/-- The tree without files. -/
def empty : FileTree := ⟨∅⟩

/-- The tree of a list of files, of which the last one of a path stays. -/
def ofList (files : List (String × String)) : FileTree := ⟨Keyed.ofList files⟩

/-- Put a file into the tree; one that is there already is replaced. -/
def insert (t : FileTree) (path content : String) : FileTree := ⟨t.files.insert path content⟩

/-- The content of a file. -/
def content? (t : FileTree) (path : String) : Option String := t.files.find? path

/-- The number of files. -/
def size (t : FileTree) : Nat := t.files.size

/-- Whether there is no file. -/
def isEmpty (t : FileTree) : Bool := t.files.isEmpty

/-- A text without what it starts with. -/
def stripLead : List Char → List Char → Option (List Char)
  | [], cs => some cs
  | l :: lead, c :: cs => if l = c then stripLead lead cs else none
  | _ :: _, [] => none

/-- The name of a file that lies directly in a directory. -/
def childName? (directory path : String) : Option String := do
  let name ← stripLead (directory.toList ++ ['/']) path.toList
  if name.isEmpty ∨ '/' ∈ name then none else some (String.ofList name)

/-- The files directly in a directory, by their names. -/
def directory (t : FileTree) (directory : String) : List (String × String) :=
  t.files.entries.filterMap fun e => (childName? directory e.1).map fun name => (name, e.2)

end FileTree

end NodeLending
