import Mathlib.Tactic.Tauto
import NodeLending.Proofs.Decode.Reading
import NodeLending.Repository.Snapshot

/-!
# Flaws of a repository

A revision is read file by file, and the first thing that is wrong ends the reading. Which revisions
are rejected can be said without that order: those with a flaw, wherever it is and whatever else is
right.

## Main definitions

* `Repository.Flaw`: what can be wrong with a revision, with the error that it is reported by.

## Main results

* `Repository.flaw_of_read`: the error that is reported is one of the flaws.
* `Repository.exists_flaw_iff`: a revision is rejected exactly when it has a flaw.
-/

namespace NodeLending

open Repository

namespace Snapshot

variable {m : String × String × String} {e : ConfigError}

/-! ### Manifests in turn -/

theorem addNode_eq_error_iff {nodes : Keyed NodeName NodeDefinition} :
    addNode nodes m = .error e ↔ readNode m.1 m.2.1 m.2.2 = .error e := by
  rw [addNode, bind_eq_error_iff]
  exact or_iff_left (fun ⟨_, _, h⟩ => by cases h)

variable [Url.Idna]

theorem addParty_of_error {parties : Keyed PartyName Party}
    (h : readParty m.2.1 m.2.2 = .error e) : addParty parties m = .error e :=
  bind_eq_error_iff.mpr (.inl h)

/-- A party that is described is added, unless there is one of its name. -/
theorem addParty_of_ok {parties : Keyed PartyName Party} {p : Party}
    (h : readParty m.2.1 m.2.2 = .ok p) :
    addParty parties m = if parties.contains p.name then .error (.duplicateParty p.name)
      else .ok (parties.insert p.name p) := by
  rw [addParty, h]
  rfl

/-- The parties are those that the manifests describe, each under its own name. -/
theorem find?_of_foldlM_addParty {l : List (String × String × String)}
    {start parties : Keyed PartyName Party} (h : l.foldlM addParty start = .ok parties)
    {n : PartyName} {p : Party} :
    parties.find? n = some p ↔
      start.find? n = some p ∨ ∃ m ∈ l, readParty m.2.1 m.2.2 = .ok p ∧ p.name = n := by
  induction l generalizing start with
  | nil =>
    cases h
    simp
  | cons m rest ih =>
    rw [List.foldlM_cons, bind_eq_ok_iff] at h
    obtain ⟨next, hadd, h⟩ := h
    cases hm : readParty m.2.1 m.2.2 with
    | error e =>
      rw [addParty_of_error hm] at hadd
      cases hadd
    | ok q =>
      rw [addParty_of_ok hm] at hadd
      split at hadd
      · cases hadd
      · next hnew =>
        cases hadd
        rw [ih h, Keyed.find?_insert]
        simp only [List.mem_cons, exists_eq_or_imp, hm, Except.ok.injEq]
        by_cases hn : n = q.name
        · -- The name is free, so what has been there before is not lost.
          have hfree : start.find? n = none := by
            rwa [Keyed.contains, Bool.not_eq_true, Option.isSome_eq_false_iff,
              Option.isNone_iff_eq_none, ← hn] at hnew
          have hself : q = p ∧ p.name = n ↔ q = p :=
            and_iff_left_of_imp fun heq => heq ▸ hn.symm
          rw [if_pos hn, hfree, hself, Option.some.injEq]
          simp
        · have hother : ¬ (q = p ∧ p.name = n) := by
            rintro ⟨rfl, rfl⟩
            exact hn rfl
          rw [if_neg hn]
          tauto

theorem contains_of_foldlM_addParty {l : List (String × String × String)}
    {start parties : Keyed PartyName Party} (h : l.foldlM addParty start = .ok parties)
    (n : PartyName) :
    parties.contains n = true ↔
      start.contains n = true ∨ ∃ m ∈ l, ∃ p, readParty m.2.1 m.2.2 = .ok p ∧ p.name = n := by
  simp only [Keyed.contains, Option.isSome_iff_exists, find?_of_foldlM_addParty h, exists_or]
  tauto

/-- What is checked of a revision, one after the other. -/
theorem read_eq_ok_iff {tree : FileTree} {s : Snapshot} :
    read tree = .ok s ↔ readConfig tree = .ok s.config ∧
      (manifests tree partiesDirectory).foldlM addParty ∅ = .ok s.parties ∧
      (manifests tree nodesDirectory).foldlM addNode ∅ = .ok s.nodes := by
  simp only [read, bind_eq_ok_iff]
  constructor
  · rintro ⟨config, hconfig, parties, hparties, nodes, hnodes, hs⟩
    cases hs
    exact ⟨hconfig, hparties, hnodes⟩
  · rintro ⟨hconfig, hparties, hnodes⟩
    exact ⟨_, hconfig, _, hparties, _, hnodes, rfl⟩

/-- A revision has each party under its own name. -/
theorem name_eq_of_read {tree : FileTree} {s : Snapshot} (h : read tree = .ok s) {n : PartyName}
    {p : Party} (hp : s.parties.find? n = some p) : p.name = n := by
  rcases (find?_of_foldlM_addParty (read_eq_ok_iff.mp h).2.1).mp hp with hnone | ⟨_, -, -, hname⟩
  · cases hnone
  · exact hname

end Snapshot

namespace Repository

open Snapshot

/-! ### Flaws -/

/-- What can be wrong with a revision, with the error that it is reported by. -/
inductive Flaw [Url.Idna] (tree : FileTree) : ConfigError → Prop
  /-- There is no file with properties. -/
  | missingConfig (h : tree.content? configFile = none) : Flaw tree .missingConfig
  /-- The properties give no address, or a blank one. -/
  | missingUrl {text : String} (h : tree.content? configFile = some text)
      (hurl : ∀ url, (Properties.parse text).find? urlKey = some url → url = "") :
      Flaw tree .missingUrl
  /-- A manifest describes no party. -/
  | party {m : String × String × String} {e : ConfigError}
      (hm : m ∈ manifests tree partiesDirectory) (h : readParty m.2.1 m.2.2 = .error e) :
      Flaw tree e
  /-- A manifest describes a party of the same name as one before it. -/
  | duplicateParty {before after : List (String × String × String)}
      {m m' : String × String × String} {p p' : Party}
      (hl : manifests tree partiesDirectory = before ++ m :: after) (hm' : m' ∈ before)
      (h' : readParty m'.2.1 m'.2.2 = .ok p') (h : readParty m.2.1 m.2.2 = .ok p)
      (hname : p'.name = p.name) : Flaw tree (.duplicateParty p.name)
  /-- A manifest describes no node, or its name is none. -/
  | node {m : String × String × String} {e : ConfigError}
      (hm : m ∈ manifests tree nodesDirectory) (h : readNode m.1 m.2.1 m.2.2 = .error e) :
      Flaw tree e

variable [Url.Idna] {tree : FileTree} {e : ConfigError}

theorem flaw_of_readConfig (h : readConfig tree = .error e) : Flaw tree e := by
  rw [readConfig] at h
  split at h
  · next htext =>
    cases h
    exact .missingConfig htext
  · next text htext =>
    dsimp only at h
    split at h
    · next hurl =>
      cases h
      refine .missingUrl htext fun url hfind => ?_
      rw [hfind] at hurl
      exact hurl
    · cases h

theorem flaw_of_parties (h : (manifests tree partiesDirectory).foldlM addParty ∅ = .error e) :
    Flaw tree e := by
  obtain ⟨before, m, after, parties, hl, hbefore, hadd⟩ := exists_of_foldlM_error h
  have hm : m ∈ manifests tree partiesDirectory := hl ▸ List.mem_append_right _ List.mem_cons_self
  cases hread : readParty m.2.1 m.2.2 with
  | error e' =>
    rw [addParty_of_error hread] at hadd
    cases hadd
    exact .party hm hread
  | ok p =>
    rw [addParty_of_ok hread] at hadd
    split at hadd
    · next hcontains =>
      cases hadd
      rw [contains_of_foldlM_addParty hbefore] at hcontains
      rcases hcontains with hcontains | ⟨m', hm', p', hread', hname⟩
      · cases hcontains
      · exact .duplicateParty hl hm' hread' hread hname
    · cases hadd

theorem flaw_of_nodes (h : (manifests tree nodesDirectory).foldlM addNode ∅ = .error e) :
    Flaw tree e := by
  obtain ⟨before, m, after, nodes, hl, -, hadd⟩ := exists_of_foldlM_error h
  have hm : m ∈ manifests tree nodesDirectory := hl ▸ List.mem_append_right _ List.mem_cons_self
  exact .node hm (addNode_eq_error_iff.mp hadd)

/-- **What is reported is wrong.** The error of a revision that is rejected is one of its flaws. -/
theorem flaw_of_read (h : Snapshot.read tree = .error e) : Flaw tree e := by
  simp only [Snapshot.read, bind_eq_error_iff] at h
  rcases h with h | ⟨_, -, h | ⟨_, -, h | ⟨_, -, h⟩⟩⟩
  · exact flaw_of_readConfig h
  · exact flaw_of_parties h
  · exact flaw_of_nodes h
  · cases h

/-! ### Revisions without flaws -/

theorem not_flaw_of_read {s : Snapshot} (h : Snapshot.read tree = .ok s)
    (e : ConfigError) : ¬ Flaw tree e := by
  obtain ⟨hconfig, hparties, hnodes⟩ := read_eq_ok_iff.mp h
  intro hflaw
  cases hflaw with
  | missingConfig htext =>
    rw [readConfig, htext] at hconfig
    cases hconfig
  | @missingUrl text htext hurl =>
    have hblank : ((Properties.parse text).find? urlKey).getD "" = "" := by
      cases hfind : (Properties.parse text).find? urlKey with
      | none => rfl
      | some url => exact hurl url hfind
    rw [readConfig, htext] at hconfig
    dsimp only at hconfig
    rw [if_pos hblank] at hconfig
    cases hconfig
  | party hm hread =>
    obtain ⟨before, after, hl⟩ := List.append_of_mem hm
    rw [hl] at hparties
    obtain ⟨_, _, -, hadd⟩ := exists_of_foldlM_ok hparties
    rw [addParty_of_error hread] at hadd
    cases hadd
  | duplicateParty hl hm' hread' hread hname =>
    rw [hl] at hparties
    obtain ⟨parties, _, hbefore, hadd⟩ := exists_of_foldlM_ok hparties
    have hcontains := (contains_of_foldlM_addParty hbefore _).mpr
      (.inr ⟨_, hm', _, hread', hname⟩)
    rw [addParty_of_ok hread, if_pos hcontains] at hadd
    cases hadd
  | node hm hread =>
    obtain ⟨before, after, hl⟩ := List.append_of_mem hm
    rw [hl] at hnodes
    obtain ⟨_, _, -, hadd⟩ := exists_of_foldlM_ok hnodes
    rw [addNode_eq_error_iff.mpr hread] at hadd
    cases hadd

/-- **All or nothing.** A revision is rejected exactly when it has a flaw, wherever that is and
whatever else is right. -/
theorem exists_flaw_iff : (∃ e, Flaw tree e) ↔ ∃ e, Snapshot.read tree = .error e := by
  refine ⟨fun ⟨e, hflaw⟩ => ?_, fun ⟨e, h⟩ => ⟨e, flaw_of_read h⟩⟩
  cases hread : Snapshot.read tree with
  | error e' => exact ⟨e', rfl⟩
  | ok s => exact absurd hflaw (not_flaw_of_read hread e)

end Repository

end NodeLending
