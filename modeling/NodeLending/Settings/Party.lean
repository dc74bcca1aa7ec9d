import NodeLending.Settings.Environment

/-!
# Settings of a party

## Main definitions

* `PartySettings`, and `PartySettings.ofEnvironment`.
-/

namespace NodeLending

/-- The settings of a party. -/
structure PartySettings where
  /-- The location of the repository. -/
  repository : String
  /-- The address of the pool. -/
  orchestratorUrl : String
  /-- The name under which the repository declares the party. -/
  name : PartyName
  /-- How long a connection may take. -/
  connect : Period
  /-- How long an answer may take. -/
  read : Period
  /-- How often demand is reported. -/
  report : Period
  deriving DecidableEq, Repr

namespace PartySettings

/-- How the periods of a party are asked for. -/
def wording : Environment.Wording := ⟨"a number of seconds", "at least one second"⟩

/-- Read the settings. -/
def ofEnvironment (env : Environment) : Except SettingsError PartySettings := do
  let repository ← env.required "NODESHARE_CONFIG_REPO"
  let orchestratorUrl ← env.required "NODESHARE_ORCHESTRATOR_URL"
  let key := "NODESHARE_PARTY_NAME"
  let name ← (Name.parse? .party (← env.required key)).mapError (.partyName key)
  let connect ← env.period wording "NODESHARE_CONNECT_TIMEOUT" .ofSeconds (.ofSeconds 60)
  let read ← env.period wording "NODESHARE_READ_TIMEOUT" .ofSeconds (.ofSeconds 300)
  let report ← env.period wording "NODESHARE_REPORT_INTERVAL" .ofSeconds (.ofSeconds 30)
  return { repository, orchestratorUrl, name, connect, read, report }

end PartySettings

end NodeLending
