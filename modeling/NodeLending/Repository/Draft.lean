import NodeLending.Repository.FileTree
import NodeLending.Repository.Properties
import NodeLending.Repository.Snapshot

/-!
# Drafts of a repository

A draft is a repository that is written step by step: the properties, the parties and the nodes
each have their own form. A node may be renamed, which moves its manifest and leaves its content
alone.

## Main definitions

* `Draft`, a file tree, with `Draft.withConfig`, `Draft.withParty`, `Draft.withNode` and
  `Draft.renameNode`.
* `Draft.sample`: a pool of two parties and two nodes.
-/

namespace NodeLending

/-- A repository that is being written. -/
abbrev Draft := FileTree

namespace Draft

open Repository

/-- Write a file. -/
def withFile (d : Draft) (path content : String) : Draft := ⟨d.files.insert path content⟩

/-- Drop a file. -/
def without (d : Draft) (path : String) : Draft := ⟨d.files.erase path⟩

/-- Write the properties. -/
def withConfig (d : Draft) (entries : List (String × String)) : Draft :=
  d.withFile configFile (Properties.print entries)

/-- A line of a manifest. -/
def manifestLine (key value : String) : String := key ++ " = \"" ++ value ++ "\"\n"

/-- The path of the manifest of a party. -/
def partyPath (name : String) : String := partiesDirectory ++ "/" ++ name ++ manifestEnding

/-- The path of the manifest of a node. -/
def nodePath (name : String) : String := nodesDirectory ++ "/" ++ name ++ manifestEnding

/-- Write the manifest of a party. -/
def withParty (d : Draft) (name url : String) (credential : Option String) : Draft :=
  d.withFile (partyPath name)
    (manifestLine "name" name ++ manifestLine "url" url ++
      (credential.map (manifestLine "credential_id")).getD "")

/-- Write the manifest of a node with its launch parameters. -/
def withLaunchedNode (d : Draft) (name labels : String) (launch : List (String × String)) : Draft :=
  d.withFile (nodePath name)
    (manifestLine "labels" labels ++ "\n[launch]\n" ++
      String.join (launch.map fun e => manifestLine e.1 e.2))

/-- Write the manifest of a node that is reached under its own name. -/
def withNode (d : Draft) (name labels : String) : Draft :=
  d.withLaunchedNode name labels [("host", name), ("port", "22")]

/-- Move the manifest of a node, if there is one. -/
def renameNode (d : Draft) (old new : String) : Draft :=
  match d.content? (nodePath old) with
  | some content => (d.without (nodePath old)).withFile (nodePath new) content
  | none => d

/-- Drop the manifest of a node. -/
def withoutNode (d : Draft) (name : String) : Draft := d.without (nodePath name)

/-- A pool of two parties and two nodes. -/
def sample : Draft :=
  withNode (withNode (withParty (withParty (withConfig FileTree.empty
    [(urlKey, "https://dummy.test")])
    "jenkins1" "https://jenkins1.acme.com" none)
    "jenkins2" "https://jenkins2.acme.com" none)
    "win1.acme.com" "windows w2k12")
    "solaris1.acme.com" "solaris11 sparc"

end Draft

end NodeLending
