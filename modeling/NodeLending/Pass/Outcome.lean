import NodeLending.Repository.Directory
import NodeLending.Repository.Snapshot
import NodeLending.Settings.Orchestrator

/-!
# How passes end

A pass brings the nodes of a pool in line with its repository. Its report counts what was done with
the nodes. A pass fails before it does anything when there is no revision to follow, and at its end
when some of the nodes could not be brought in line.

## Main definitions

* `PassReport`, with the addition of reports.
* `PassError`, and `PassResult`.
-/

namespace NodeLending

/-- What a pass did with the nodes. -/
structure PassReport where
  /-- Nodes that were created. -/
  created : Nat := 0
  /-- Nodes that were redefined. -/
  updated : Nat := 0
  /-- Nodes with the definition that is declared. -/
  unchanged : Nat := 0
  /-- Nodes that were removed. -/
  removed : Nat := 0
  /-- Nodes that are busy and keep an earlier definition. -/
  deferred : Nat := 0
  /-- Nodes that are not declared and still there. -/
  pendingRemoval : Nat := 0
  /-- Nodes that waited to be removed and are declared again. -/
  reactivated : Nat := 0
  /-- Nodes that were found on the engine and taken over. -/
  adopted : Nat := 0
  deriving DecidableEq, Repr

namespace PassReport

/-- The counts of two reports together. -/
def add (a b : PassReport) : PassReport where
  created := a.created + b.created
  updated := a.updated + b.updated
  unchanged := a.unchanged + b.unchanged
  removed := a.removed + b.removed
  deferred := a.deferred + b.deferred
  pendingRemoval := a.pendingRemoval + b.pendingRemoval
  reactivated := a.reactivated + b.reactivated
  adopted := a.adopted + b.adopted

instance : Add PassReport := ⟨add⟩

end PassReport

/-- Why a pass fails. -/
inductive PassError where
  /-- The pool has no repository. -/
  | notConfigured
  /-- The revision of the repository is rejected. -/
  | config (e : ConfigError)
  /-- The repository cannot be fetched. -/
  | fetch (e : FetchError)
  /-- Another pass is under way. -/
  | inProgress
  /-- Some nodes could not be brought in line. -/
  | apply (failed : Nat) (first : String)
  deriving DecidableEq, Repr

/-- The wording of a pass error. -/
def PassError.message : PassError → String
  | .notConfigured => s!"repository not configured: set {OrchestratorSettings.repositoryKey}"
  | .config e => e.message
  | .fetch e => s!"failed to fetch config repository: {e.message}"
  | .inProgress => "a reconciliation pass is already running"
  | .apply failed first => s!"failed to apply {failed} node change(s), first: {first}"

/-- How a pass ended. -/
abbrev PassResult := Except PassError PassReport

end NodeLending
