import NodeLending.Proofs.Repository.Flaw
import NodeLending.Repository.Draft

/-!
# Nodes under other names

The manifest of a node bears its name. So a repository declares a node exactly when there is a file
under the path that belongs to the name, and the order in which the manifests are read does not
matter. When a manifest is moved to a path that is free, the repository declares the same as before,
except that the node has got the other name.

## Main definitions

* `Snapshot.replaceNode`: a revision that declares a node in the place of another.

## Main results

* `Snapshot.mem_manifests`: the manifests of a directory are its files with their ending.
* `Snapshot.foldlM_addNode_eq_ok_iff`: which nodes a repository declares.
* `Snapshot.read_renameNode`: what a repository declares when a manifest has been moved.
-/

namespace NodeLending

open Repository

/-! ### Entries that do not count -/

namespace Keyed

variable {κ β γ : Type} [Ord κ] [Std.LawfulEqOrd κ] {f : κ × β → Option γ} {k : κ}

theorem filterMap_entries_erase {m : Keyed κ β} (h : ∀ v, f (k, v) = none) :
    (m.erase k).entries.filterMap f = m.entries.filterMap f := by
  rw [erase, filter, List.filterMap_filter]
  congr 1
  funext e
  obtain ⟨k', v⟩ := e
  split
  · rfl
  · next heq =>
    have hk : compare k k' = .eq := by simpa using heq
    obtain rfl : k = k' := Std.LawfulEqCmp.eq_of_compare hk
    rw [h]

theorem filterMap_place (h : ∀ v, f (k, v) = none) (v : β) (l : List (κ × β)) :
    (place k v l).filterMap f = l.filterMap f := by
  induction l with
  | nil => rw [place, List.filterMap_cons_none (h v)]
  | cons q rest ih =>
    obtain ⟨k', v'⟩ := q
    rw [place]
    split
    · rw [List.filterMap_cons_none (h v)]
    · next heq =>
      obtain rfl : k = k' := Std.LawfulEqCmp.eq_of_compare heq
      rw [List.filterMap_cons_none (h v), List.filterMap_cons_none (h v')]
    · rw [List.filterMap_cons, List.filterMap_cons, ih]

end Keyed

/-- The character between the parts of a path is in no name. -/
theorem Name.slash_not_mem {kind : NameKind} (n : Name kind) : '/' ∉ n.text.toList := by
  have hsafe := n.safe
  have hslash : isForbidden '/' = true := by decide
  rw [check] at hsafe
  split at hsafe
  · cases hsafe
  split at hsafe
  · cases hsafe
  split at hsafe
  · cases hsafe
  split at hsafe
  · cases hsafe
  · next hnone => exact fun hmem => List.find?_eq_none.mp hnone _ hmem hslash

/-! ### Paths -/

namespace FileTree

theorem stripLead_eq_some_iff {lead cs rest : List Char} :
    stripLead lead cs = some rest ↔ cs = lead ++ rest := by
  induction lead generalizing cs with
  | nil => simp [stripLead]
  | cons l lead ih =>
    cases cs with
    | nil => simp [stripLead]
    | cons c cs =>
      rw [stripLead]
      split
      · next heq => rw [ih, heq, List.cons_append, List.cons_inj_right]
      · next hne => simp [Ne.symm hne]

/-- The files directly in a directory have its path and a slash in front of their names. -/
theorem childName?_eq_some_iff {directory path name : String} :
    childName? directory path = some name ↔
      path = directory ++ "/" ++ name ∧ name ≠ "" ∧ '/' ∉ name.toList := by
  have hpath : ∀ cs, path.toList = directory.toList ++ ['/'] ++ cs ↔
      path = directory ++ "/" ++ String.ofList cs := by
    intro cs
    rw [← String.toList_inj]
    simp
  simp only [childName?, Option.bind_eq_bind, Option.bind_eq_some_iff, stripLead_eq_some_iff, hpath]
  constructor
  · rintro ⟨cs, hcs, h⟩
    split at h
    · cases h
    · next hgood =>
      obtain rfl := Option.some.inj h
      rw [not_or] at hgood
      exact ⟨hcs, by simpa using hgood.1, by simpa using hgood.2⟩
  · rintro ⟨hname, hne, hslash⟩
    refine ⟨name.toList, by rwa [String.ofList_toList], ?_⟩
    rw [if_neg, String.ofList_toList]
    simp [hne, hslash]

variable {tree : FileTree} {directory name content : String}

theorem mem_directory : (name, content) ∈ tree.directory directory ↔
    tree.content? (directory ++ "/" ++ name) = some content ∧ name ≠ "" ∧ '/' ∉ name.toList := by
  simp only [FileTree.directory, List.mem_filterMap, Option.map_eq_some_iff, Prod.mk.injEq,
    childName?_eq_some_iff, content?, ← Keyed.mem_entries_iff]
  constructor
  · rintro ⟨⟨path, c⟩, hmem, n, ⟨rfl, hname⟩, rfl, rfl⟩
    exact ⟨hmem, hname⟩
  · rintro ⟨hmem, hname⟩
    exact ⟨_, hmem, name, ⟨rfl, hname⟩, rfl, rfl⟩

end FileTree

namespace Snapshot

variable {tree : FileTree} {directory : String} {m : String × String × String}

theorem stem?_eq_some_iff {file stem : String} :
    stem? file = some stem ↔ file = stem ++ manifestEnding := by
  simp only [stem?, Option.map_eq_some_iff, FileTree.stripLead_eq_some_iff]
  constructor
  · rintro ⟨cs, hcs, rfl⟩
    rw [← String.toList_inj]
    simpa using congrArg List.reverse hcs
  · rintro rfl
    exact ⟨stem.toList.reverse, by simp, by simp⟩

/-- The manifests of a directory are its files with their ending. -/
theorem mem_manifests : m ∈ manifests tree directory ↔
    m.2.1 = directory ++ "/" ++ m.1 ++ manifestEnding ∧ tree.content? m.2.1 = some m.2.2 ∧
      '/' ∉ m.1.toList := by
  obtain ⟨stem, path, content⟩ := m
  have hending : manifestEnding ≠ "" := by decide
  have hslash : '/' ∉ manifestEnding.toList := by decide
  simp only [manifests, List.mem_filterMap, Option.map_eq_some_iff, Prod.mk.injEq,
    stem?_eq_some_iff]
  constructor
  · rintro ⟨⟨file, c⟩, hmem, stem', rfl, rfl, rfl, rfl⟩
    obtain ⟨hcontent, -, hfile⟩ := FileTree.mem_directory.mp hmem
    rw [String.toList_append, List.mem_append, not_or] at hfile
    exact ⟨String.append_assoc.symm, hcontent, hfile.1⟩
  · rintro ⟨rfl, hcontent, hstem⟩
    rw [String.append_assoc] at hcontent
    refine ⟨(stem ++ manifestEnding, content), FileTree.mem_directory.mpr ⟨hcontent, ?_, ?_⟩, stem,
      rfl, rfl, String.append_assoc.symm, rfl⟩
    · simp [hending]
    · simp [hstem, hslash]

/-! ### Nodes -/

variable {l : List (String × String × String)} {start nodes : Keyed NodeName NodeDefinition}
  {n : NodeName} {d : NodeDefinition}

/-- A manifest describes a node under its own name. -/
theorem readNode_eq_ok_iff {stem path content : String} :
    readNode stem path content = .ok (n, d) ↔
      n.text = stem ∧ NodeDefinition.readManifest content = .ok d := by
  simp only [readNode, bind_eq_ok_iff, mapError_eq_ok_iff]
  constructor
  · rintro ⟨n', hn, d', hd, h⟩
    cases h
    exact ⟨Name.text_of_parse? hn, hd⟩
  · rintro ⟨rfl, hd⟩
    exact ⟨n, Name.parse?_text n, d, hd, rfl⟩

/-- The nodes are those that the manifests describe, if each has a name of its own. -/
theorem find?_of_foldlM_addNode (h : l.foldlM addNode start = .ok nodes)
    (hl : (l.map Prod.fst).Nodup) :
    nodes.find? n = some d ↔ (∃ m ∈ l, readNode m.1 m.2.1 m.2.2 = .ok (n, d)) ∨
      start.find? n = some d ∧ n.text ∉ l.map Prod.fst := by
  induction l generalizing start with
  | nil =>
    cases h
    simp
  | cons m rest ih =>
    rw [List.foldlM_cons, bind_eq_ok_iff] at h
    obtain ⟨next, hadd, h⟩ := h
    rw [addNode, bind_eq_ok_iff] at hadd
    obtain ⟨⟨n₀, d₀⟩, hm, hnext⟩ := hadd
    obtain rfl := Except.ok.inj hnext
    have hname := (readNode_eq_ok_iff.mp hm).1
    rw [List.map_cons, List.nodup_cons, ← hname] at hl
    rw [ih h hl.2, Keyed.find?_insert, List.map_cons, List.mem_cons, ← hname]
    simp only [List.mem_cons, exists_eq_or_imp, hm, Except.ok.injEq, Prod.mk.injEq]
    by_cases hn : n = n₀
    · subst hn
      simp only [if_pos, Option.some.injEq, hl.1, not_false_eq_true, and_true, true_and,
        not_true_eq_false, and_false, or_false]
      exact or_comm
    · have htext : n.text ≠ n₀.text := fun heq => hn (Name.ext heq)
      simp only [if_neg hn, htext, false_or, Ne.symm hn, false_and]

/-- If each manifest describes a node, so does the repository. -/
theorem exists_foldlM_addNode (h : ∀ m ∈ l, ∃ x, readNode m.1 m.2.1 m.2.2 = .ok x) :
    ∃ nodes, l.foldlM addNode start = .ok nodes := by
  induction l generalizing start with
  | nil => exact ⟨start, rfl⟩
  | cons m rest ih =>
    obtain ⟨x, hx⟩ := h m List.mem_cons_self
    obtain ⟨nodes, hnodes⟩ : ∃ nodes, rest.foldlM addNode (start.insert x.1 x.2) = .ok nodes :=
      ih fun m' hm' => h m' (List.mem_cons_of_mem m hm')
    exact ⟨nodes, by rw [List.foldlM_cons, addNode, hx]; exact hnodes⟩

/-- The manifests of a directory are listed by ascending path. -/
theorem pairwise_manifests (tree : FileTree) (directory : String) :
    (manifests tree directory).Pairwise fun a b => compare a.2.1 b.2.1 = .lt := by
  rw [manifests, FileTree.directory, List.filterMap_filterMap, List.pairwise_filterMap]
  refine tree.files.ascending.imp fun {a b} hlt m hm m' hm' => ?_
  simp only [Option.bind_eq_some_iff, Option.map_eq_some_iff] at hm hm'
  obtain ⟨_, ⟨file, hfile, rfl⟩, stem, -, rfl⟩ := hm
  obtain ⟨_, ⟨file', hfile', rfl⟩, stem', -, rfl⟩ := hm'
  rwa [(FileTree.childName?_eq_some_iff.mp hfile).1,
    (FileTree.childName?_eq_some_iff.mp hfile').1] at hlt

/-- No two manifests of a directory have the same stem. -/
theorem nodup_manifests (tree : FileTree) (directory : String) :
    ((manifests tree directory).map Prod.fst).Nodup := by
  rw [List.Nodup, List.pairwise_map]
  refine (pairwise_manifests tree directory).imp_of_mem fun {a b} ha hb hlt heq => ?_
  rw [(mem_manifests.mp ha).1, (mem_manifests.mp hb).1, heq, Std.ReflOrd.compare_self] at hlt
  cases hlt

/-- The manifest of a node is the file under the path that belongs to its name. -/
theorem exists_readNode_iff : (∃ m ∈ manifests tree nodesDirectory,
      readNode m.1 m.2.1 m.2.2 = .ok (n, d)) ↔
    ∃ content, tree.content? (Draft.nodePath n.text) = some content ∧
      NodeDefinition.readManifest content = .ok d := by
  simp only [mem_manifests, readNode_eq_ok_iff]
  constructor
  · rintro ⟨⟨stem, path, content⟩, ⟨hpath, hcontent, -⟩, hname, hd⟩
    dsimp only at hpath hcontent hname
    subst hpath hname
    exact ⟨content, hcontent, hd⟩
  · rintro ⟨content, hcontent, hd⟩
    exact ⟨⟨n.text, _, content⟩, ⟨rfl, hcontent, n.slash_not_mem⟩, rfl, hd⟩

/-- **What a repository declares.** The nodes can be read exactly when each manifest describes a
node, and then a node is declared by the file under the path that belongs to its name. -/
theorem foldlM_addNode_eq_ok_iff :
    (manifests tree nodesDirectory).foldlM addNode ∅ = .ok nodes ↔
      (∀ m ∈ manifests tree nodesDirectory, ∃ x, readNode m.1 m.2.1 m.2.2 = .ok x) ∧
      ∀ n d, nodes.find? n = some d ↔ ∃ content,
        tree.content? (Draft.nodePath n.text) = some content ∧
          NodeDefinition.readManifest content = .ok d := by
  have hfind : ∀ {nodes}, (manifests tree nodesDirectory).foldlM addNode ∅ = .ok nodes →
      ∀ n d, nodes.find? n = some d ↔ ∃ content,
        tree.content? (Draft.nodePath n.text) = some content ∧
          NodeDefinition.readManifest content = .ok d := by
    intro nodes h n d
    rw [find?_of_foldlM_addNode h (nodup_manifests tree nodesDirectory), exists_readNode_iff]
    exact or_iff_left nofun
  constructor
  · intro h
    refine ⟨fun m hm => ?_, hfind h⟩
    obtain ⟨before, after, hl⟩ := List.append_of_mem hm
    rw [hl] at h
    obtain ⟨_, _, -, hadd⟩ := exists_of_foldlM_ok h
    obtain ⟨x, hx, -⟩ := bind_eq_ok_iff.mp hadd
    exact ⟨x, hx⟩
  · rintro ⟨hread, hnodes⟩
    obtain ⟨nodes', hnodes'⟩ : ∃ nodes', (manifests tree nodesDirectory).foldlM addNode ∅ =
        .ok nodes' := exists_foldlM_addNode hread
    have heq : nodes' = nodes := Keyed.ext_find? fun n => Option.ext fun d => by
      rw [hfind hnodes', hnodes]
    rw [hnodes', heq]

/-- A revision declares no node that has no manifest. -/
theorem find?_eq_none_of_content? [Url.Idna] {s : Snapshot} (h : read tree = .ok s)
    (hn : tree.content? (Draft.nodePath n.text) = none) : s.nodes.find? n = none := by
  have hfind := (foldlM_addNode_eq_ok_iff.mp (read_eq_ok_iff.mp h).2.2).2
  rw [Option.eq_none_iff_forall_ne_some]
  intro d hd
  obtain ⟨content, hcontent, -⟩ := (hfind n d).mp hd
  rw [hn] at hcontent
  cases hcontent

end Snapshot

/-! ### Another name -/

namespace Draft

variable {t : Draft} {old new path content directory : String}

theorem nodePath_inj {a b : String} (h : nodePath a = nodePath b) : a = b := by
  rw [nodePath, nodePath, ← String.toList_inj] at h
  rw [← String.toList_inj]
  simpa using h

theorem configFile_ne_nodePath (name : String) : configFile ≠ nodePath name := by
  intro heq
  have hchars := congrArg String.toList heq
  simp [nodePath, configFile, nodesDirectory] at hchars

/-- No manifest of a node is among those of the parties. -/
theorem childName?_nodePath (name : String) :
    FileTree.childName? partiesDirectory (nodePath name) = none := by
  rw [Option.eq_none_iff_forall_ne_some]
  intro file hfile
  have hchars := congrArg String.toList (FileTree.childName?_eq_some_iff.mp hfile).1
  simp [nodePath, partiesDirectory, nodesDirectory] at hchars

/-- Moving a manifest changes what is found under the two paths. -/
theorem content?_renameNode (h : t.content? (nodePath old) = some content) :
    (renameNode t old new).content? path = if path = nodePath new then some content
      else if path = nodePath old then none else t.content? path := by
  rw [renameNode, h]
  simp only [withFile, without, FileTree.content?, Keyed.find?_insert, Keyed.find?_erase]

/-- Writing a file does not change what is in a directory that it is not in. -/
theorem directory_withFile (h : FileTree.childName? directory path = none) (t : Draft)
    (content : String) : (t.withFile path content).directory directory = t.directory directory :=
  Keyed.filterMap_place (fun content => by rw [h, Option.map_none]) content _

theorem directory_without (h : FileTree.childName? directory path = none) (t : Draft) :
    (t.without path).directory directory = t.directory directory :=
  Keyed.filterMap_entries_erase fun content => by rw [h, Option.map_none]

/-- Moving a manifest does not change what is in another directory. -/
theorem directory_renameNode (hdir : ∀ name, FileTree.childName? directory (nodePath name) = none) :
    (renameNode t old new).directory directory = t.directory directory := by
  rw [renameNode]
  split
  · rw [directory_withFile (hdir new), directory_without (hdir old)]
  · rfl

end Draft

namespace Snapshot

/-- A revision that declares `new` in the place of `old`. -/
def replaceNode (s : Snapshot) (old new : NodeName) (definition : NodeDefinition) : Snapshot :=
  { s with nodes := (s.nodes.erase old).insert new definition }

variable {tree : FileTree} {s : Snapshot} {old new : NodeName} {definition : NodeDefinition}

theorem find?_replaceNode (n : NodeName) : (s.replaceNode old new definition).nodes.find? n =
    if n = new then some definition else if n = old then none else s.nodes.find? n := by
  rw [replaceNode, Keyed.find?_insert, Keyed.find?_erase]

/-- **Another name.** When the manifest of a node is moved to the path of another name, the
repository can be read as before, and declares the node under the other name. -/
theorem read_renameNode [Url.Idna] (hread : read tree = .ok s)
    (hold : s.nodes.find? old = some definition) :
    read (Draft.renameNode tree old.text new.text) = .ok (s.replaceNode old new definition) := by
  obtain ⟨hconfig, hparties, hnodes⟩ := read_eq_ok_iff.mp hread
  obtain ⟨hmanifests, hfind⟩ := foldlM_addNode_eq_ok_iff.mp hnodes
  obtain ⟨content, hcontent, hd⟩ := (hfind old definition).mp hold
  have hpath : ∀ path, (Draft.renameNode tree old.text new.text).content? path = _ :=
    fun path => Draft.content?_renameNode hcontent
  refine read_eq_ok_iff.mpr ⟨?_, ?_, foldlM_addNode_eq_ok_iff.mpr ⟨?_, ?_⟩⟩
  · rw [readConfig, hpath, if_neg (Draft.configFile_ne_nodePath _),
      if_neg (Draft.configFile_ne_nodePath _)]
    exact hconfig
  · rw [manifests, Draft.directory_renameNode Draft.childName?_nodePath]
    exact hparties
  · rintro ⟨stem, path, c⟩ hm
    obtain ⟨hm, hc, hstem⟩ := mem_manifests.mp hm
    dsimp only at hm hc hstem
    subst hm
    rw [hpath] at hc
    split at hc
    · next heq =>
      obtain rfl := Option.some.inj hc
      obtain rfl : stem = new.text := Draft.nodePath_inj heq
      exact ⟨(new, definition), readNode_eq_ok_iff.mpr ⟨rfl, hd⟩⟩
    · split at hc
      · cases hc
      · exact hmanifests (stem, _, c) (mem_manifests.mpr ⟨rfl, hc, hstem⟩)
  · intro n d
    rw [hpath, find?_replaceNode]
    by_cases hn : n = new
    · subst hn
      simp [hd]
    have hnew : Draft.nodePath n.text ≠ Draft.nodePath new.text :=
      fun heq => hn (Name.ext (Draft.nodePath_inj heq))
    rw [if_neg hn, if_neg hnew]
    by_cases ho : n = old
    · subst ho
      simp
    · have hold' : Draft.nodePath n.text ≠ Draft.nodePath old.text :=
        fun heq => ho (Name.ext (Draft.nodePath_inj heq))
      rw [if_neg ho, if_neg hold']
      exact hfind n d

end Snapshot

end NodeLending
