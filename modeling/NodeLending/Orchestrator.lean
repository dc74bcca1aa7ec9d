import NodeLending.Ledger
import NodeLending.Pool.View
import NodeLending.Reservation.Queue

/-!
# The orchestrator

The orchestrator serves the parties of one repository. It holds the pool, the reservations and the
demand that parties have reported. Without a repository it serves nobody.

## Main definitions

* `Orchestrator`, and `Orchestrator.served`, the namespace that it serves.
-/

namespace NodeLending

/-- What serves the parties of a repository. -/
structure Orchestrator where
  /-- The location of the repository. -/
  repository : Option String
  /-- The pool. -/
  pool : Pool
  /-- The reservations. -/
  queue : Queue
  /-- The demand that parties have reported. -/
  ledger : Ledger
  deriving DecidableEq, Repr

namespace Orchestrator

/-- The orchestrator of a repository before its first pass. -/
def new (repository : Option String) : Orchestrator := ⟨repository, .empty, .empty, .empty⟩

/-- The namespace that is served. -/
def served (o : Orchestrator) : Option Namespace := o.repository.map Namespace.ofRepository

end Orchestrator

end NodeLending
