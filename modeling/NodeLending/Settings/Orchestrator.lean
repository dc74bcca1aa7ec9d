import NodeLending.Address.Socket
import NodeLending.Settings.Environment

/-!
# Settings of a pool

## Main definitions

* `OrchestratorSettings`, and `OrchestratorSettings.read`.
* `reconcileInterval`, `maintenanceInterval`: how often the pool works when nothing else is set.
-/

namespace NodeLending

/-- How often the repository is looked at. -/
def reconcileInterval : Period := .ofSeconds 30

/-- How often reservations are matched with nodes. -/
def maintenanceInterval : Period := ⟨500⟩

/-- How long a fetch of the repository may take. -/
def fetchTimeout : Period := .ofSeconds 120

/-- The settings of a pool. -/
structure OrchestratorSettings where
  /-- The address to listen on. -/
  listen : Address.Socket
  /-- The location of the repository; without one the pool stays inactive. -/
  repository : Option String
  /-- How often the repository is looked at. -/
  reconcile : Period
  /-- How often reservations are matched with nodes. -/
  maintenance : Period
  /-- How long a fetch of the repository may take. -/
  fetch : Period
  /-- How much is logged. -/
  logLevel : String
  deriving DecidableEq, Repr

namespace OrchestratorSettings

/-- The variable with the location of the repository. -/
def repositoryKey : String := "NODESHARE_CONFIG_REPO"

/-- How the periods of a pool are asked for. -/
def wording : Environment.Wording := ⟨"a whole number", "greater than zero"⟩

/-- Read the settings. The address counts as it is written, blanks included. -/
def read (env : Environment) : Except SettingsError OrchestratorSettings := do
  let address := (env.find? "NODESHARE_LISTEN_ADDR").getD "127.0.0.1:8080"
  let listen ← match Address.Socket.parse? address with
    | some a => pure a
    | none => .error .address
  let reconcile ← env.period wording "NODESHARE_RECONCILE_INTERVAL" .ofSeconds reconcileInterval
  let maintenance ← env.period wording "NODESHARE_MATCH_INTERVAL" Period.mk maintenanceInterval
  let fetch ← env.period wording "NODESHARE_FETCH_TIMEOUT" .ofSeconds fetchTimeout
  return {
    listen, reconcile, maintenance, fetch
    repository := env.text? repositoryKey
    logLevel := (env.find? "NODESHARE_LOG_LEVEL").getD "info" }

end OrchestratorSettings

end NodeLending
