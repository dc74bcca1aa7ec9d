import NodeLending.Message
import NodeLending.Moment

/-!
# The demand that parties report

Each party reports from time to time everything it wants to run, and a report replaces the earlier
one of the same party. The ledger keeps the last report of each party and sums them up. It informs
and decides nothing: no reservation comes of a report.

## Main definitions

* `Ledger`, with `Ledger.record`.
* `DemandSummary`, and `Ledger.summary`.
-/

namespace NodeLending

/-- The last report of a party. -/
structure Report where
  /-- The demand, in the order of the party's queue. -/
  items : List WorkloadItem
  /-- When it was reported. -/
  time : Moment
  deriving DecidableEq, Repr

/-- The last report of each party. -/
structure Ledger where
  /-- The reports. -/
  reports : Keyed PartyName Report
  deriving DecidableEq, Repr

/-- The demand of all parties. -/
structure DemandSummary where
  /-- How many items there are. -/
  total : Nat
  /-- How many items ask for a label expression. -/
  byLabel : Keyed String Nat
  /-- How many items a party has. -/
  byParty : Keyed PartyName Nat
  /-- When the last report came. -/
  lastReportedAt : Option Moment
  deriving DecidableEq, Repr

namespace Ledger

/-- The ledger without reports. -/
def empty : Ledger := ⟨∅⟩

/-- Replace the report of a party. -/
def record (l : Ledger) (party : PartyName) (items : List WorkloadItem) (now : Moment) : Ledger :=
  ⟨l.reports.insert party ⟨items, now⟩⟩

/-- Count one more item that asks for a label expression. -/
def tally (counts : Keyed String Nat) (item : WorkloadItem) : Keyed String Nat :=
  counts.insert item.label ((counts.find? item.label).getD 0 + 1)

/-- The items of all reports, party by party. -/
def items (l : Ledger) : List WorkloadItem := l.reports.values.flatMap Report.items

/-- The later one of two moments that need not be there. -/
def later? : Option Moment → Moment → Option Moment
  | none, m => some m
  | some m, m' => some (m.later m')

/-- The demand of all parties. -/
def summary (l : Ledger) : DemandSummary where
  total := l.items.length
  byLabel := l.items.foldl tally ∅
  byParty := l.reports.mapValues fun r => r.items.length
  lastReportedAt := (l.reports.values.map Report.time).foldl later? none

end Ledger

namespace DemandSummary

open Json

/-- The reader of a count. -/
def count : Decoder Nat := Decoder.natural (UInt64.size - 1) "usize"

/-- The reader of the counts of label expressions. -/
def labelCounts : Decoder (Keyed String Nat) := fun o =>
  (Decoder.map .ok count o).map Keyed.ofList

/-- The reader of the counts of parties. -/
def partyCounts : Decoder (Keyed PartyName Nat) := fun o =>
  (Decoder.map (fun s => (Name.parse? .party s).mapError NameError.message) count o).map
    Keyed.ofList

/-- The reader of a moment. -/
def moment : Decoder Moment
  | .text (some s) =>
    match Moment.parse? s with
    | .ok m => .ok m
    | .error e => .error (.here (.rejected e.message))
  | o => Decoder.unexpected "an RFC 3339 formatted date and time string" o

instance : Codec DemandSummary where
  encode d := .object ([
    ("total", .nat d.total),
    ("by_label", .object (d.byLabel.mapValues Value.nat).entries),
    ("by_party", .object (d.byParty.entries.map fun e => (e.1.text, .nat e.2)))] ++
    optional "last_reported_at" (d.lastReportedAt.map fun m => .string m.text))
  decoder := record "DemandSummary" false
    (DemandSummary.mk <$> .required "total" count
      <*> .required "by_label" labelCounts
      <*> .required "by_party" partyCounts
      <*> .defaulted "last_reported_at" moment.option none)

end DemandSummary

end NodeLending
