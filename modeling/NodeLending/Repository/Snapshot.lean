import NodeLending.Node.Definition
import NodeLending.Party
import NodeLending.Repository.FileTree
import NodeLending.Repository.Properties
import NodeLending.Toml.Decode

/-!
# Snapshots of a repository

A repository declares the pool: the file `config` its properties, the files `parties/*.toml` the
parties and the files `nodes/*.toml` the nodes, each named after its file. A snapshot is a revision
that has been checked as a whole. A single broken manifest rejects all of it, so the pool never
runs on half a configuration.

The properties come first, then the parties and then the nodes, each by ascending path; the first
fault is the one that is reported.

## Main definitions

* `Snapshot`, with `Snapshot.read`.
* `ConfigError`: why a revision is rejected.
-/

namespace NodeLending

/-- Why a revision is rejected. -/
inductive ConfigError where
  /-- There is no file `config`. -/
  | missingConfig
  /-- The address of the pool is not given. -/
  | missingUrl
  /-- A manifest cannot be read. -/
  | manifest (path : String) (e : Toml.DecodeError)
  /-- The name of a node manifest is no name. -/
  | nodeName (path : String) (e : NameError)
  /-- A manifest describes no party. -/
  | party (path : String) (e : PartyError)
  /-- Two manifests declare the same party. -/
  | duplicateParty (name : PartyName)
  deriving DecidableEq, Repr

namespace Repository

/-- The file with the properties. -/
def configFile : String := "config"

/-- The directory of the parties. -/
def partiesDirectory : String := "parties"

/-- The directory of the nodes. -/
def nodesDirectory : String := "nodes"

/-- What the name of a manifest ends with. -/
def manifestEnding : String := ".toml"

/-- The property with the address of the pool. -/
def urlKey : String := "orchestrator.url"

end Repository

open Repository

/-- The wording of a config error. -/
def ConfigError.message : ConfigError → String
  | .missingConfig => s!"no config file found in config repository (expected '{configFile}')"
  | .missingUrl => s!"no base URL specified by config repository (expected key '{urlKey}')"
  | .manifest path e => s!"invalid manifest '{path}': {e.message}"
  | .nodeName path e => s!"invalid node manifest name '{path}': {e.message}"
  | .party path e => s!"invalid party in '{path}': {e.message}"
  | .duplicateParty name => s!"party '{name.text}' is declared more than once"

/-! ### Manifests -/

/-- What a manifest says of a party. -/
structure PartyManifest where
  /-- The name. -/
  name : String
  /-- The URL. -/
  url : String
  /-- The reference to the credentials. -/
  credential : Option String
  deriving DecidableEq, Repr

/-- Read the manifest of a party. -/
def PartyManifest.read (content : String) : Except Toml.DecodeError PartyManifest := do
  let entries ← Toml.read content
  Toml.visit [.field "name" .text, .field "url" .text, .field "credential_id" .text] entries
  let name ← Toml.required entries "name" .text
  let url ← Toml.required entries "url" .text
  let credential ← Toml.optional entries "credential_id" .text
  return ⟨name, url, credential⟩

/-- Read the manifest of a node. -/
def NodeDefinition.readManifest (content : String) : Except Toml.DecodeError NodeDefinition := do
  let entries ← Toml.read content
  Toml.visit [.field "labels" .text, .field "description" .text, .field "launch" .texts] entries
  let labels ← Toml.required entries "labels" .text
  let description ← Toml.optional entries "description" .text
  let launch ← Toml.optional entries "launch" .texts
  return ⟨labels, description, launch.getD ∅⟩

/-! ### Snapshots -/

/-- A revision of a repository that has been checked. -/
structure Snapshot where
  /-- The properties. -/
  config : Keyed String String
  /-- The parties. -/
  parties : Keyed PartyName Party
  /-- The nodes. -/
  nodes : Keyed NodeName NodeDefinition
  deriving DecidableEq, Repr

namespace Snapshot

/-- The name of a manifest without its ending. -/
def stem? (file : String) : Option String :=
  (FileTree.stripLead manifestEnding.toList.reverse file.toList.reverse).map fun cs =>
    String.ofList cs.reverse

/-- The manifests directly in a directory: their stems, paths and contents. -/
def manifests (tree : FileTree) (directory : String) : List (String × String × String) :=
  (tree.directory directory).filterMap fun e =>
    (stem? e.1).map fun stem => (stem, directory ++ "/" ++ e.1, e.2)

/-- The party that a manifest describes. -/
def readParty [Url.Idna] (path content : String) : Except ConfigError Party := do
  let m ← (PartyManifest.read content).mapError (.manifest path)
  (Party.of? m.url m.name m.credential).mapError (.party path)

/-- The node that a manifest describes. -/
def readNode (stem path content : String) : Except ConfigError (NodeName × NodeDefinition) := do
  let name ← (Name.parse? .node stem).mapError (.nodeName path)
  let definition ← (NodeDefinition.readManifest content).mapError (.manifest path)
  return (name, definition)

/-- Add the party of a manifest to those that have been read. -/
def addParty [Url.Idna] (parties : Keyed PartyName Party) (m : String × String × String) :
    Except ConfigError (Keyed PartyName Party) := do
  let p ← readParty m.2.1 m.2.2
  if parties.contains p.name then .error (.duplicateParty p.name)
  else return parties.insert p.name p

/-- Add the node of a manifest to those that have been read. -/
def addNode (nodes : Keyed NodeName NodeDefinition) (m : String × String × String) :
    Except ConfigError (Keyed NodeName NodeDefinition) := do
  let (name, definition) ← readNode m.1 m.2.1 m.2.2
  return nodes.insert name definition

/-- The properties of a repository, which give the address of the pool. -/
def readConfig (tree : FileTree) : Except ConfigError (Keyed String String) :=
  match tree.content? configFile with
  | none => .error .missingConfig
  | some text =>
    let config := Properties.parse text
    if (config.find? urlKey).getD "" = "" then .error .missingUrl else .ok config

/-- Check a revision. -/
def read [Url.Idna] (tree : FileTree) : Except ConfigError Snapshot := do
  let config ← readConfig tree
  let parties ← (manifests tree partiesDirectory).foldlM addParty ∅
  let nodes ← (manifests tree nodesDirectory).foldlM addNode ∅
  return ⟨config, parties, nodes⟩

/-- The address of the pool. -/
def url (s : Snapshot) : String := (s.config.find? urlKey).getD ""

/-- What the revision says of a node. -/
def node? (s : Snapshot) (name : NodeName) : Option NodeDefinition := s.nodes.find? name

end Snapshot

end NodeLending
