import Mathlib.Data.List.Nodup
import NodeLending.Proofs.Repository.Renaming

/-!
# What a revision is read as

A revision is read from the file with its properties and from the manifests that lie directly in the
directories of the parties and of the nodes. It is read if these files are in order, and then each
manifest has its own entry in what is read and each entry its own manifest. Other files do not
count, even if they are manifests by their names and lie further down, or in a directory whose name
only begins like one of the two.

Here a manifest is a file with a certain path, whichever way the files are gone through.

## Main definitions

* `FileTree.HasManifest`: a file that lies directly in a directory and has the ending.
* `FileTree.Alike`: trees with the same properties and manifests.
* `Repository.Describes`: the party of a manifest.
* `Repository.InOrder`: a revision without anything wrong with it.
* `Snapshot.Faithful`: what is read has the properties of a revision and exactly its parties and
  nodes.

## Main results

* `Snapshot.exists_read_iff`: which revisions can be read.
* `Snapshot.faithful_of_read`: what they are read as.
* `Snapshot.read_congr`: which files count.
* `Snapshot.read_faithful`: the three together.
-/

namespace NodeLending

open Repository

/-- A file lies directly in a directory, and its name is a stem with the ending of a manifest. -/
structure FileTree.HasManifest (tree : FileTree) (directory stem content : String) : Prop where
  /-- There is no directory in between. -/
  direct : '/' ∉ stem.toList
  /-- The file is there. -/
  content?_eq : tree.content? (directory ++ "/" ++ stem ++ manifestEnding) = some content

/-- Trees have the same properties and the same manifests. -/
structure FileTree.Alike (tree tree' : FileTree) : Prop where
  config : tree.content? configFile = tree'.content? configFile
  party : ∀ stem content, tree.HasManifest partiesDirectory stem content ↔
    tree'.HasManifest partiesDirectory stem content
  node : ∀ stem content, tree.HasManifest nodesDirectory stem content ↔
    tree'.HasManifest nodesDirectory stem content

/-- The content of a manifest can be read, and there is a party as it says. -/
def Repository.Describes [Url.Idna] (content : String) (p : Party) : Prop :=
  ∃ m, PartyManifest.read content = .ok m ∧ Party.of? m.url m.name m.credential = .ok p

/-- The properties give an address, each manifest of a party describes a party of a name that no
other has, and each manifest of a node has a name for its stem and can be read. -/
structure Repository.InOrder [Url.Idna] (tree : FileTree) : Prop where
  config : ∃ text url, tree.content? configFile = some text ∧
    (Properties.parse text).find? urlKey = some url ∧ url ≠ ""
  party : ∀ stem content, tree.HasManifest partiesDirectory stem content → ∃ p, Describes content p
  distinct : ∀ stem stem' content content' p p', tree.HasManifest partiesDirectory stem content →
    tree.HasManifest partiesDirectory stem' content' → Describes content p →
    Describes content' p' → p.name = p'.name → stem = stem'
  node : ∀ stem content, tree.HasManifest nodesDirectory stem content →
    (∃ n : NodeName, n.text = stem) ∧ ∃ d, NodeDefinition.readManifest content = .ok d

/-- Each of the one kind belongs to exactly one of the other, and the other way round. -/
def OneToOne {α β : Type} (A : α → Prop) (B : β → Prop) (R : α → β → Prop) : Prop :=
  (∀ a, A a → ∃! b, B b ∧ R a b) ∧ ∀ b, B b → ∃! a, A a ∧ R a b

/-- What is read has the properties of a revision and one entry for each of its manifests: for that
of a party the party under its name, for that of a node the definition under the stem of the
file. -/
structure Snapshot.Faithful [Url.Idna] (s : Snapshot) (tree : FileTree) : Prop where
  config : (tree.content? configFile).map Properties.parse = some s.config
  parties : OneToOne (fun m : String × String => tree.HasManifest partiesDirectory m.1 m.2)
    (fun e : PartyName × Party => s.parties.find? e.1 = some e.2)
    fun m e => e.2.name = e.1 ∧ Describes m.2 e.2
  nodes : OneToOne (fun m : String × String => tree.HasManifest nodesDirectory m.1 m.2)
    (fun e : NodeName × NodeDefinition => s.nodes.find? e.1 = some e.2)
    fun m e => e.1.text = m.1 ∧ NodeDefinition.readManifest m.2 = .ok e.2

/-! ### Manifests by their paths -/

/-- A file has one content. -/
theorem FileTree.HasManifest.unique {tree : FileTree} {directory stem content content' : String}
    (h : tree.HasManifest directory stem content) (h' : tree.HasManifest directory stem content') :
    content = content' :=
  Option.some.inj (h.content?_eq.symm.trans h'.content?_eq)

/-- A manifest describes one party. -/
theorem Repository.Describes.unique [Url.Idna] {content : String} {p q : Party} (hp : Describes content p)
    (hq : Describes content q) : p = q := by
  obtain ⟨m, hm, hp⟩ := hp
  obtain ⟨m', hm', hq⟩ := hq
  obtain rfl := Except.ok.inj (hm.symm.trans hm')
  exact Except.ok.inj (hp.symm.trans hq)

namespace Snapshot

variable {tree tree' : FileTree} {directory stem content path : String} {s : Snapshot}

theorem mem_manifests_iff_hasManifest {m : String × String × String} :
    m ∈ manifests tree directory ↔ m.2.1 = directory ++ "/" ++ m.1 ++ manifestEnding ∧
      tree.HasManifest directory m.1 m.2.2 := by
  rw [mem_manifests]
  constructor
  · rintro ⟨hpath, hcontent, hdirect⟩
    exact ⟨hpath, hdirect, hpath ▸ hcontent⟩
  · rintro ⟨hpath, hdirect, hcontent⟩
    exact ⟨hpath, hpath ▸ hcontent, hdirect⟩

theorem mem_manifests_of_hasManifest (h : tree.HasManifest directory stem content) :
    (stem, directory ++ "/" ++ stem ++ manifestEnding, content) ∈ manifests tree directory :=
  mem_manifests_iff_hasManifest.mpr ⟨rfl, h⟩

theorem readParty_eq_ok_iff [Url.Idna] {p : Party} :
    readParty path content = .ok p ↔ Describes content p := by
  simp only [readParty, bind_eq_ok_iff, mapError_eq_ok_iff, Describes]

theorem readConfig_eq_ok_iff {config : Keyed String String} :
    readConfig tree = .ok config ↔
      (∃ text, tree.content? configFile = some text ∧ Properties.parse text = config) ∧
      ∃ url, config.find? urlKey = some url ∧ url ≠ "" := by
  rw [readConfig]
  cases tree.content? configFile with
  | none => simp
  | some text =>
    have hgiven : ∀ x : Option String, x.getD "" ≠ "" ↔ ∃ url, x = some url ∧ url ≠ "" := by
      intro x
      cases x <;> simp
    simp only [Option.some.injEq, exists_eq_left', ← hgiven]
    split
    · next hblank =>
      have hnone : ¬ (Properties.parse text = config ∧ (config.find? urlKey).getD "" ≠ "") := by
        rintro ⟨rfl, hne⟩
        exact hne hblank
      simp [hnone]
    · next hurl =>
      rw [Except.ok.injEq]
      exact (and_iff_left_of_imp fun heq => heq ▸ hurl).symm

/-! ### Which revisions can be read -/

section Reading

variable [Url.Idna]

theorem inOrder_of_read (h : read tree = .ok s) : InOrder tree where
  config := by
    obtain ⟨⟨text, htext, hparse⟩, url, hurl⟩ := readConfig_eq_ok_iff.mp (read_eq_ok_iff.mp h).1
    exact ⟨text, url, htext, hparse ▸ hurl⟩
  party stem content hm := by
    cases hread : readParty (partiesDirectory ++ "/" ++ stem ++ manifestEnding) content with
    | error e =>
      exact absurd (Flaw.party (mem_manifests_of_hasManifest hm) hread) (not_flaw_of_read h e)
    | ok p => exact ⟨p, readParty_eq_ok_iff.mp hread⟩
  distinct stem stem' content content' p p' hm hm' hp hp' hname := by
    -- Of two manifests one comes before the other, and then the later one is a duplicate.
    have hmem := mem_manifests_of_hasManifest hm
    obtain ⟨before, after, hl⟩ := List.append_of_mem (mem_manifests_of_hasManifest hm')
    rw [hl, List.mem_append, List.mem_cons] at hmem
    rcases hmem with hmem | heq | hmem
    · exact absurd (Flaw.duplicateParty hl hmem (readParty_eq_ok_iff.mpr hp)
        (readParty_eq_ok_iff.mpr hp') hname) (not_flaw_of_read h _)
    · exact congrArg Prod.fst heq
    · obtain ⟨between, rest, rfl⟩ := List.append_of_mem hmem
      rw [← List.cons_append, ← List.append_assoc] at hl
      exact absurd (Flaw.duplicateParty hl (List.mem_append_right _ List.mem_cons_self)
        (readParty_eq_ok_iff.mpr hp') (readParty_eq_ok_iff.mpr hp) hname.symm)
        (not_flaw_of_read h _)
  node stem content hm := by
    cases hread : readNode stem (nodesDirectory ++ "/" ++ stem ++ manifestEnding) content with
    | error e =>
      exact absurd (Flaw.node (mem_manifests_of_hasManifest hm) hread) (not_flaw_of_read h e)
    | ok x =>
      obtain ⟨hname, hd⟩ := readNode_eq_ok_iff.mp hread
      exact ⟨⟨x.1, hname⟩, x.2, hd⟩

/-- **Which revisions can be read.** Those whose own files are in order. -/
theorem exists_read_iff : (∃ s, read tree = .ok s) ↔ InOrder tree := by
  refine ⟨fun ⟨s, h⟩ => inOrder_of_read h, fun h => ?_⟩
  cases hread : read tree with
  | ok s => exact ⟨s, rfl⟩
  | error e =>
    exfalso
    cases flaw_of_read hread with
    | missingConfig htext =>
      obtain ⟨text, url, htext', -⟩ := h.config
      rw [htext] at htext'
      cases htext'
    | missingUrl htext hurl =>
      obtain ⟨text, url, htext', hfind, hne⟩ := h.config
      rw [htext] at htext'
      cases htext'
      exact hne (hurl url hfind)
    | party hm herr =>
      obtain ⟨p, hp⟩ := h.party _ _ (mem_manifests_iff_hasManifest.mp hm).2
      rw [readParty_eq_ok_iff.mpr hp] at herr
      cases herr
    | @duplicateParty before after m m' p p' hl hm' hp' hp hname =>
      have hnodup := nodup_manifests tree partiesDirectory
      have hm : m ∈ manifests tree partiesDirectory :=
        hl ▸ List.mem_append_right _ List.mem_cons_self
      have hmem' : m' ∈ manifests tree partiesDirectory := hl ▸ List.mem_append_left _ hm'
      have hstem := h.distinct _ _ _ _ p' p (mem_manifests_iff_hasManifest.mp hmem').2
        (mem_manifests_iff_hasManifest.mp hm).2 (readParty_eq_ok_iff.mp hp')
        (readParty_eq_ok_iff.mp hp) hname
      rw [hl, List.map_append, List.map_cons] at hnodup
      exact (List.nodup_append.mp hnodup).2.2 _ (List.mem_map_of_mem hm') _ List.mem_cons_self hstem
    | @node m _ hm herr =>
      obtain ⟨⟨n, hn⟩, d, hd⟩ := h.node _ _ (mem_manifests_iff_hasManifest.mp hm).2
      rw [readNode_eq_ok_iff.mpr ⟨hn, hd⟩] at herr
      cases herr

/-! ### What they are read as -/

/-- The parties are those that are described, each under its name. -/
theorem find?_parties_of_read (h : read tree = .ok s) {n : PartyName} {p : Party} :
    s.parties.find? n = some p ↔ p.name = n ∧ ∃ stem content,
      tree.HasManifest partiesDirectory stem content ∧ Describes content p := by
  rw [find?_of_foldlM_addParty (read_eq_ok_iff.mp h).2.1]
  constructor
  · rintro (hnone | ⟨m, hm, hp, hname⟩)
    · cases hnone
    · exact ⟨hname, m.1, m.2.2, (mem_manifests_iff_hasManifest.mp hm).2, readParty_eq_ok_iff.mp hp⟩
  · rintro ⟨hname, stem, content, hm, hp⟩
    exact .inr ⟨_, mem_manifests_of_hasManifest hm, readParty_eq_ok_iff.mpr hp, hname⟩

/-- The nodes are those that have a manifest, each under its stem. -/
theorem find?_nodes_of_read (h : read tree = .ok s) {n : NodeName} {d : NodeDefinition} :
    s.nodes.find? n = some d ↔ ∃ content, tree.HasManifest nodesDirectory n.text content ∧
      NodeDefinition.readManifest content = .ok d := by
  rw [(foldlM_addNode_eq_ok_iff.mp (read_eq_ok_iff.mp h).2.2).2 n d]
  exact exists_congr fun content =>
    and_congr_left' ⟨fun hc => ⟨n.slash_not_mem, hc⟩, fun hm => hm.content?_eq⟩

/-- **What a revision is read as.** Nothing is lost, and nothing comes from elsewhere. -/
theorem faithful_of_read (h : read tree = .ok s) : s.Faithful tree where
  config := by
    obtain ⟨⟨text, htext, hparse⟩, -⟩ := readConfig_eq_ok_iff.mp (read_eq_ok_iff.mp h).1
    rw [htext, Option.map_some, hparse]
  parties := by
    constructor
    · rintro ⟨stem, content⟩ hm
      obtain ⟨p, hp⟩ := (inOrder_of_read h).party stem content hm
      have hentry := (find?_parties_of_read h).mpr ⟨rfl, stem, content, hm, hp⟩
      refine ⟨(p.name, p), ⟨hentry, rfl, hp⟩, ?_⟩
      rintro ⟨n, q⟩ ⟨-, hname, hq⟩
      obtain rfl := hq.unique hp
      exact congrArg (·, q) hname.symm
    · rintro ⟨n, p⟩ hp
      obtain ⟨hname, stem, content, hm, hdesc⟩ := (find?_parties_of_read h).mp hp
      refine ⟨(stem, content), ⟨hm, hname, hdesc⟩, ?_⟩
      rintro ⟨stem', content'⟩ ⟨hm', -, hdesc'⟩
      obtain rfl : stem' = stem :=
        (inOrder_of_read h).distinct _ _ _ _ p p hm' hm hdesc' hdesc rfl
      exact congrArg (stem', ·) (hm'.unique hm)
  nodes := by
    constructor
    · rintro ⟨stem, content⟩ hm
      obtain ⟨⟨n, rfl⟩, d, hd⟩ := (inOrder_of_read h).node stem content hm
      refine ⟨(n, d), ⟨(find?_nodes_of_read h).mpr ⟨content, hm, hd⟩, rfl, hd⟩, ?_⟩
      rintro ⟨n', d'⟩ ⟨-, hname, hd'⟩
      exact Prod.ext (Name.ext hname) (Except.ok.inj (hd'.symm.trans hd))
    · rintro ⟨n, d⟩ hd
      obtain ⟨content, hm, hread⟩ := (find?_nodes_of_read h).mp hd
      refine ⟨(n.text, content), ⟨hm, rfl, hread⟩, ?_⟩
      rintro ⟨stem, content'⟩ ⟨hm', hname, -⟩
      obtain rfl : n.text = stem := hname
      exact congrArg (n.text, ·) (hm'.unique hm)

end Reading

/-! ### Which files count -/

/-- Only the manifests themselves decide how they are listed. -/
theorem manifests_congr (h : ∀ stem content, tree.HasManifest directory stem content ↔
    tree'.HasManifest directory stem content) :
    manifests tree directory = manifests tree' directory := by
  have hnodup : ∀ t, (manifests t directory).Nodup :=
    fun t => (nodup_manifests t directory).of_map _
  have hperm : (manifests tree directory).Perm (manifests tree' directory) := by
    refine (List.perm_ext_iff_of_nodup (hnodup tree) (hnodup tree')).mpr fun m => ?_
    rw [mem_manifests_iff_hasManifest, mem_manifests_iff_hasManifest, h]
  have hasymm : ∀ a b : String, compare a b = .lt → compare b a ≠ .lt :=
    fun _ _ => Std.OrientedCmp.not_lt_of_lt
  exact hperm.eq_of_pairwise (fun a b _ _ hab hba => absurd hba (hasymm _ _ hab))
    (pairwise_manifests tree directory) (pairwise_manifests tree' directory)

example : manifests (.ofList [("nodes/a.toml", "1"), ("nodes/b/a.toml", "2"), ("nodes/a.txt", "3"),
    ("nodesx/a.toml", "4")]) nodesDirectory = [("a", "nodes/a.toml", "1")] := by decide

/-- **Which files count.** Trees with the same properties and manifests are read alike, or are
rejected for the same reason. -/
theorem read_congr [Url.Idna] (h : tree.Alike tree') : read tree = read tree' := by
  rw [read, read, readConfig, readConfig, h.config, manifests_congr h.party, manifests_congr h.node]

/-- **What a revision is read as.** For every tree of files:

* It can be read exactly when its properties and manifests are in order.
* What is read has its properties and one entry for each manifest. Nothing is merged or lost.
* Other files do not count, neither for what is read nor for the reason of a rejection. -/
theorem read_faithful [Url.Idna] (tree : FileTree) :
    ((∃ s, read tree = .ok s) ↔ InOrder tree) ∧ (∀ s, read tree = .ok s → s.Faithful tree) ∧
      ∀ tree', tree.Alike tree' → read tree = read tree' :=
  ⟨exists_read_iff, fun _ => faithful_of_read, fun _ => read_congr⟩

end Snapshot

end NodeLending
