import Mathlib.Algebra.BigOperators.Group.List.Lemmas
import Mathlib.Algebra.GroupWithZero.Nat
import NodeLending.Ledger

/-!
# What a summary says of the reports

The summary of a ledger can be told from the reports themselves, in the order in which they came.
Only the last report of each party stands. The items of the standing reports are counted twice, by
party and by label, and both counts come to the same total. Since a report only ever replaces one of
the same party, reports of different parties may come in either order, except for the time of the
last one.

## Main definitions

* `Report.lastOf`: the last report of a party; `Report.standing`: the reports that no later one of
  the same party replaces.
* `Ledger.ofReports`: the ledger after some reports.

## Main results

* `Ledger.perm_standing`: the ledger holds the standing reports.
* `Ledger.summary_ofReports`: what the summary says.
-/

namespace NodeLending

/-! ### Reports in the order of their arrival -/

namespace Report

/-- The last report of a party in a list of reports with their senders. -/
def lastOf (party : PartyName) (reports : List (PartyName × Report)) : Option Report :=
  (reports.reverse.find? fun x => x.1 = party).map Prod.snd

/-- The reports that no later one of the same party replaces. -/
def standing : List (PartyName × Report) → List (PartyName × Report)
  | [] => []
  | x :: rest => if x.1 ∈ rest.map Prod.fst then standing rest else x :: standing rest

variable {party : PartyName}

theorem lastOf_append (party : PartyName) (before after : List (PartyName × Report)) :
    lastOf party (before ++ after) = (lastOf party after).or (lastOf party before) := by
  rw [lastOf, lastOf, lastOf, List.reverse_append, List.find?_append, Option.map_or]

theorem lastOf_singleton (party : PartyName) (x : PartyName × Report) :
    lastOf party [x] = if party = x.1 then some x.2 else none := by
  by_cases hx : party = x.1
  · simp [lastOf, hx]
  · simp [lastOf, hx, Ne.symm hx]

theorem lastOf_cons (party : PartyName) (x : PartyName × Report)
    (reports : List (PartyName × Report)) : lastOf party (x :: reports) =
      (lastOf party reports).or (if party = x.1 then some x.2 else none) := by
  rw [← lastOf_singleton]
  exact lastOf_append party [x] reports

/-- The last report of a party is one of its reports. -/
theorem mem_of_lastOf {reports : List (PartyName × Report)} {r : Report}
    (h : lastOf party reports = some r) : (party, r) ∈ reports := by
  obtain ⟨⟨p, r'⟩, hfind, rfl⟩ := Option.map_eq_some_iff.mp h
  have hp : p = party := by simpa using List.find?_some hfind
  exact hp ▸ List.mem_reverse.mp (List.mem_of_find?_eq_some hfind)

/-- A party has a last report as soon as it has reported. -/
theorem isSome_lastOf (reports : List (PartyName × Report)) :
    (lastOf party reports).isSome = true ↔ party ∈ reports.map Prod.fst := by
  induction reports with
  | nil => exact iff_of_false nofun nofun
  | cons x reports ih =>
    rw [lastOf_cons, Option.isSome_or, Bool.or_eq_true, ih, List.map_cons, List.mem_cons]
    by_cases hx : party = x.1
    · simp [hx]
    · simp [hx]

/-- A report stands exactly if it is the last one of its party. -/
theorem mem_standing {reports : List (PartyName × Report)} {x : PartyName × Report} :
    x ∈ standing reports ↔ lastOf x.1 reports = some x.2 := by
  induction reports with
  | nil => exact iff_of_false nofun nofun
  | cons y rest ih =>
    rw [lastOf_cons]
    by_cases hy : y.1 ∈ rest.map Prod.fst
    · -- The first report is replaced, so that nothing is left of it.
      rw [standing, if_pos hy, ih]
      by_cases hx : x.1 = y.1
      · obtain ⟨r, hr⟩ := Option.isSome_iff_exists.mp ((isSome_lastOf rest).mpr (hx ▸ hy))
        rw [hr, Option.some_or]
      · rw [if_neg hx, Option.or_none]
    · have hnone : lastOf y.1 rest = none := by
        rw [← Option.not_isSome_iff_eq_none, isSome_lastOf]
        exact hy
      rw [standing, if_neg hy, List.mem_cons, ih]
      by_cases hx : x.1 = y.1
      · rw [hx, hnone, if_pos rfl, Option.none_or, Option.some_inj]
        constructor
        · rintro (rfl | h)
          · rfl
          · cases h
        · exact fun h => .inl (Prod.ext hx h.symm)
      · rw [if_neg hx, Option.or_none]
        exact or_iff_right fun heq => hx (congrArg Prod.fst heq)

/-- No party has two reports that stand. -/
theorem nodup_standing (reports : List (PartyName × Report)) :
    ((standing reports).map Prod.fst).Nodup := by
  induction reports with
  | nil => exact List.nodup_nil
  | cons y rest ih =>
    by_cases hy : y.1 ∈ rest.map Prod.fst
    · rw [standing, if_pos hy]
      exact ih
    · rw [standing, if_neg hy, List.map_cons, List.nodup_cons]
      refine ⟨fun hmem => hy ?_, ih⟩
      obtain ⟨x, hx, heq⟩ := List.mem_map.mp hmem
      rw [mem_standing, heq] at hx
      exact (isSome_lastOf rest).mp (Option.isSome_iff_exists.mpr ⟨x.2, hx⟩)

end Report

namespace Ledger

open Report

/-! ### The ledger after some reports -/

/-- Put a report with its sender into the ledger. -/
def take (ledger : Ledger) (x : PartyName × Report) : Ledger :=
  ledger.record x.1 x.2.items x.2.time

/-- A ledger into which reports are put holds the last one of each party. -/
theorem find?_foldl_take (reports : List (PartyName × Report)) (ledger : Ledger)
    (party : PartyName) : (reports.foldl take ledger).reports.find? party =
      (lastOf party reports).or (ledger.reports.find? party) := by
  induction reports generalizing ledger with
  | nil => rfl
  | cons x reports ih =>
    have htake : (ledger.take x).reports.find? party =
        if party = x.1 then some x.2 else ledger.reports.find? party :=
      Keyed.find?_insert _ _ _ _
    rw [List.foldl_cons, ih, lastOf_cons, htake, Option.or_assoc]
    split <;> rfl

/-- The ledger after some reports. -/
def ofReports (reports : List (PartyName × Report)) : Ledger := reports.foldl take empty

variable {reports others : List (PartyName × Report)} {party : PartyName}

theorem find?_ofReports (reports : List (PartyName × Report)) (party : PartyName) :
    (ofReports reports).reports.find? party = lastOf party reports :=
  (find?_foldl_take reports empty party).trans Option.or_none

/-- Only the last report of each party counts. -/
theorem ofReports_congr (h : ∀ party, lastOf party others = lastOf party reports) :
    ofReports others = ofReports reports := by
  have hreports : (ofReports others).reports = (ofReports reports).reports :=
    Keyed.ext_find? fun party => by rw [find?_ofReports, find?_ofReports, h]
  exact congrArg Ledger.mk hreports

/-- The ledger holds the standing reports. -/
theorem perm_standing (reports : List (PartyName × Report)) :
    (ofReports reports).reports.entries.Perm (standing reports) := by
  have hentries : (ofReports reports).reports.entries.Nodup :=
    .of_map Prod.fst (ofReports reports).reports.nodup_keys
  refine (List.perm_ext_iff_of_nodup hentries (.of_map Prod.fst (nodup_standing reports))).mpr ?_
  intro x
  rw [mem_standing, ← find?_ofReports]
  exact Keyed.mem_entries_iff _

/-- The labels that the items of some reports ask for. -/
def labels (reports : List (PartyName × Report)) : List String :=
  reports.flatMap fun x => x.2.items.map WorkloadItem.label

theorem perm_labels (reports : List (PartyName × Report)) :
    ((ofReports reports).items.map WorkloadItem.label).Perm (labels (standing reports)) := by
  rw [items, Keyed.values, List.flatMap_map, List.map_flatMap]
  exact (perm_standing reports).flatMap_right _

/-! ### Counting -/

/-- After some items each label has been counted as often as it has come. -/
theorem find?_foldl_tally (items : List WorkloadItem) (counts : Keyed String Nat) (label : String) :
    (items.foldl tally counts).find? label =
      if (items.map WorkloadItem.label).count label = 0 then counts.find? label
      else some ((counts.find? label).getD 0 + (items.map WorkloadItem.label).count label) := by
  induction items generalizing counts with
  | nil => rfl
  | cons i items ih =>
    have htally : (tally counts i).find? label =
        if label = i.label then some ((counts.find? i.label).getD 0 + 1)
        else counts.find? label := Keyed.find?_insert _ _ _ _
    rw [List.foldl_cons, ih, htally, List.map_cons, List.count_cons]
    by_cases hi : label = i.label
    · rw [if_pos hi, if_pos (beq_iff_eq.mpr hi.symm), if_neg (Nat.succ_ne_zero _), Option.getD_some,
        hi]
      split
      · next hzero => rw [hzero]
      · rw [Nat.add_assoc, Nat.add_comm 1]
    · rw [if_neg hi, if_neg fun heq => hi (beq_iff_eq.mp heq).symm, Nat.add_zero]

/-- A label has a count exactly if a standing report asks for it, and then it is the number of its
occurrences. -/
theorem find?_byLabel {label : String} {count : Nat} :
    (ofReports reports).summary.byLabel.find? label = some count ↔
      0 < count ∧ (labels (standing reports)).count label = count := by
  have htally : (ofReports reports).summary.byLabel.find? label =
      if (labels (standing reports)).count label = 0 then none
      else some (0 + (labels (standing reports)).count label) := by
    rw [← (perm_labels reports).count_eq]
    exact find?_foldl_tally (ofReports reports).items ∅ label
  rw [htally, Nat.zero_add]
  split
  · next hzero =>
    rw [hzero]
    exact iff_of_false nofun fun ⟨hpos, hcount⟩ => hpos.ne hcount
  · next hpos =>
    rw [Option.some_inj]
    exact ⟨fun heq => ⟨heq ▸ Nat.pos_of_ne_zero hpos, heq⟩, And.right⟩

/-- The counts of the parties come to the total. -/
theorem sum_byParty (l : Ledger) : l.summary.total = l.summary.byParty.values.sum := by
  change l.items.length = (l.reports.mapValues fun r => r.items.length).values.sum
  rw [items, List.length_flatMap, Keyed.values, Keyed.values, Keyed.mapValues, List.map_map,
    List.map_map]
  rfl

/-- The counts of the labels come to the total. -/
theorem sum_byLabel (reports : List (PartyName × Report)) :
    (ofReports reports).summary.total = (ofReports reports).summary.byLabel.values.sum := by
  have hkeys : (ofReports reports).summary.byLabel.keys.Perm (labels (standing reports)).dedup := by
    refine (List.perm_ext_iff_of_nodup (Keyed.nodup_keys _) (List.nodup_dedup _)).mpr ?_
    intro label
    rw [Keyed.mem_keys_iff, Keyed.contains, Option.isSome_iff_exists, List.mem_dedup]
    simp only [find?_byLabel, ← List.count_pos_iff]
    constructor
    · rintro ⟨count, hpos, rfl⟩
      exact hpos
    · intro hpos
      exact ⟨_, hpos, rfl⟩
  have hvalues : (ofReports reports).summary.byLabel.values =
      (ofReports reports).summary.byLabel.keys.map fun label =>
        (labels (standing reports)).count label := by
    rw [Keyed.values, Keyed.keys, List.map_map]
    refine List.map_congr_left fun e he => ?_
    exact (find?_byLabel.mp ((Keyed.mem_entries_iff _).mp he)).2.symm
  calc (ofReports reports).summary.total
      = ((ofReports reports).items.map WorkloadItem.label).length := (List.length_map _).symm
    _ = (labels (standing reports)).length := (perm_labels reports).length_eq
    _ = ((labels (standing reports)).dedup.map fun label =>
          (labels (standing reports)).count label).sum :=
        (List.sum_map_count_dedup_eq_length _).symm
    _ = (ofReports reports).summary.byLabel.values.sum := by
        rw [hvalues]
        exact (hkeys.map _).sum_eq.symm

/-! ### Summaries -/

/-- Ledgers with the same demand of each party have the same summary, except for the time. -/
theorem summary_congr {l l' : Ledger}
    (h : ∀ party, (l.reports.find? party).map Report.items =
      (l'.reports.find? party).map Report.items) :
    l.summary = { l'.summary with lastReportedAt := l.summary.lastReportedAt } := by
  have hdemand : l.reports.mapValues Report.items = l'.reports.mapValues Report.items :=
    Keyed.ext_find? fun party => by rw [Keyed.find?_mapValues, Keyed.find?_mapValues, h]
  have hitems : l.items = l'.items := by
    have hflat : ∀ l : Ledger, l.items = (l.reports.mapValues Report.items).values.flatten := by
      intro l
      rw [items, List.flatMap_def, Keyed.values, Keyed.values, Keyed.mapValues, List.map_map,
        List.map_map]
      rfl
    rw [hflat, hflat, hdemand]
  have hparty : (l.reports.mapValues fun r => r.items.length) =
      l'.reports.mapValues fun r => r.items.length :=
    Keyed.ext_find? fun party => by
      have hlength := congrArg (Option.map List.length) (h party)
      rw [Option.map_map, Option.map_map] at hlength
      rw [Keyed.find?_mapValues, Keyed.find?_mapValues]
      exact hlength
  simp only [summary, hitems, hparty]

/-- Two reports of different parties that come one after the other may come the other way round. -/
theorem map_lastOf_swap {p q : PartyName} (h : p ≠ q) (i j : List WorkloadItem)
    (t u t' u' : Moment) (before after : List (PartyName × Report)) (party : PartyName) :
    (lastOf party (before ++ (q, ⟨j, t'⟩) :: (p, ⟨i, u'⟩) :: after)).map Report.items =
      (lastOf party (before ++ (p, ⟨i, t⟩) :: (q, ⟨j, u⟩) :: after)).map Report.items := by
  simp only [lastOf_append, lastOf_cons, Option.map_or]
  by_cases hp : party = p
  · simp [hp, h]
  · by_cases hq : party = q
    · simp [hq, Ne.symm h]
    · simp [hp, hq]

/-- **What a summary says of the reports.**

* It depends on the last report of each party only.
* A party is listed exactly if it has reported, with the length of its last report.
* A label is listed exactly if a standing report asks for it, with the number of its occurrences in
  the standing reports.
* Both lists come to the total.
* If two neighbouring reports of different parties change places, whatever the times are then,
  nothing changes but the time of the last report. -/
theorem summary_ofReports (reports : List (PartyName × Report)) :
    let summary := (ofReports reports).summary
    (∀ others, (∀ party, lastOf party others = lastOf party reports) →
      (ofReports others).summary = summary) ∧
    (∀ party, summary.byParty.find? party =
      (lastOf party reports).map fun r => r.items.length) ∧
    (∀ party, summary.byParty.contains party = true ↔ party ∈ reports.map Prod.fst) ∧
    (∀ label count, summary.byLabel.find? label = some count ↔
      0 < count ∧ (labels (standing reports)).count label = count) ∧
    summary.total = summary.byParty.values.sum ∧
    summary.total = summary.byLabel.values.sum ∧
    ∀ before p i t q j u after, reports = before ++ (p, ⟨i, t⟩) :: (q, ⟨j, u⟩) :: after → p ≠ q →
      ∀ t' u', ∃ time, (ofReports (before ++ (q, ⟨j, t'⟩) :: (p, ⟨i, u'⟩) :: after)).summary =
        { summary with lastReportedAt := time } := by
  intro summary
  have hparty : ∀ party, summary.byParty.find? party =
      (lastOf party reports).map fun r => r.items.length := by
    intro party
    rw [← find?_ofReports]
    exact Keyed.find?_mapValues _ _ _
  refine ⟨fun others h => congrArg Ledger.summary (ofReports_congr h), hparty, fun party => ?_,
    fun label count => find?_byLabel, sum_byParty _, sum_byLabel reports, ?_⟩
  · rw [← isSome_lastOf, Keyed.contains, hparty, Option.isSome_map]
  · rintro before p i t q j u after rfl hne t' u'
    refine ⟨_, summary_congr fun party => ?_⟩
    rw [find?_ofReports, find?_ofReports]
    exact map_lastOf_swap hne i j t u t' u' before after party

end Ledger

namespace Sample

/-- A party that asks for one node. -/
def ci : PartyName := ⟨"ci", by decide⟩

/-- Another party. -/
def lab : PartyName := ⟨"lab", by decide⟩

/-- Two parties report, and the first one takes its demand back. -/
def withdrawal : List (PartyName × Report) :=
  [(ci, ⟨[⟨⟨1⟩, "a", ci⟩], ⟨0, 0⟩⟩), (lab, ⟨[⟨⟨2⟩, "a", lab⟩], ⟨1, 0⟩⟩), (ci, ⟨[], ⟨2, 0⟩⟩)]

end Sample

theorem Ledger.summary_of_replaced_report :
    (ofReports Sample.withdrawal).summary =
      (ofReports (Sample.withdrawal.drop 1)).summary ∧
    (ofReports Sample.withdrawal).summary.byLabel.find? "a" = some 1 ∧
    ∃ time, (ofReports [(Sample.lab, ⟨[⟨⟨2⟩, "a", Sample.lab⟩], ⟨0, 0⟩⟩),
        (Sample.ci, ⟨[⟨⟨1⟩, "a", Sample.ci⟩], ⟨1, 0⟩⟩), (Sample.ci, ⟨[], ⟨2, 0⟩⟩)]).summary =
      { (ofReports Sample.withdrawal).summary with lastReportedAt := time } := by
  obtain ⟨hlast, -, -, hlabel, -, -, hswap⟩ := summary_ofReports Sample.withdrawal
  refine ⟨(hlast _ fun party => ?_).symm, (hlabel "a" 1).mpr (by decide),
    hswap [] _ _ _ _ _ _ _ rfl (by decide) ⟨0, 0⟩ ⟨1, 0⟩⟩
  -- The first report is replaced by the third one.
  rw [Sample.withdrawal, List.drop_one, List.tail_cons, Report.lastOf_cons _ (Sample.ci, _)]
  by_cases hparty : party = Sample.ci
  · subst hparty
    rfl
  · rw [if_neg hparty, Option.or_none]

end NodeLending
