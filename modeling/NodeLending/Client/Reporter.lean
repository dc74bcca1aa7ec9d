import NodeLending.Client.Session

/-!
# Reporting demand

A party reports its demand again and again. It keeps the session of its last discovery as long as
reports succeed, and discovers the pool anew after a failure. The demand is looked at when the
report is sent, and not before the discovery.

## Main definitions

* `Reporter.report`, `Reporter.tick`: one report, and one with the session it needs.
* `Reporter.ticks`: a number of reports in turn.
-/

namespace NodeLending.Reporter

open Client

/-- Report the demand that waits in the queue. -/
def report (s : Session) : Exchange (Except Error UInt64) := do
  let items ← demand
  s.report items

/-- Report in a session. The session is dropped when the report fails. -/
def reportIn (s : Session) : Exchange (Except Error UInt64 × Option Session) := do
  match ← report s with
  | .ok accepted => return (.ok accepted, some s)
  | .error e => return (.error e, none)

/-- Report in the session that is kept, or in a new one. -/
def tick (c : Client) (kept : Option Session) :
    Exchange (Except Error UInt64 × Option Session) := do
  match kept with
  | some s => reportIn s
  | none =>
    match ← c.discover with
    | .ok s => reportIn s
    | .error e => return (.error e, none)

/-- Report a number of times; the result is the session that is kept in the end. -/
def ticks (c : Client) (kept : Option Session) : Nat → Exchange (Option Session)
  | 0 => return kept
  | n + 1 => do
    let (_, kept) ← tick c kept
    ticks c kept n

end NodeLending.Reporter
