import NodeLending.Proofs.Label.Atom
import NodeLending.Proofs.Reservation.Draining

/-!
# Labels that are advertised

A pool tells its parties which labels its active nodes serve: the words of their label strings, and
their names. Both may hold characters that mean something in a label expression, and then the label
is told to the parties although no expression asks for it. A label without such characters is read as
itself, and as soon as the nodes are idle a reservation that asks for it runs on a node that has it.

## Main results

* `Inventory.mem_servedLabels`: which labels are advertised.
* `Queue.pending_enqueue`, `Queue.run_maintain_of_single`: a cycle with one reservation that waits.
* `Deployment.requested_of_served`: which of the labels that are advertised can be asked for, and what
  comes of it.
-/

namespace NodeLending

/-! ### Labels -/

theorem mem_ascending {texts : List String} {s : String} : s ∈ ascending texts ↔ s ∈ texts := by
  rw [ascending, Keyed.mem_keys_iff, Keyed.contains_ofList, List.map_map]
  simp

/-- The words of a text are not empty. -/
theorem Text.ne_nil_of_mem_wordsFrom {run cs : List Char} {w : List Char}
    (h : w ∈ wordsFrom run cs) : w ≠ [] := by
  fun_induction wordsFrom run cs with
  | case1 => cases h
  | case2 run hrun =>
    rw [List.mem_singleton.mp h]
    simpa using hrun
  | case3 run c cs _ _ ih => exact ih h
  | case4 run c cs _ hrun ih =>
    rcases List.mem_cons.mp h with rfl | h
    · simpa using hrun
    · exact ih h
  | case5 run c cs _ ih => exact ih h

namespace ManagedNode

variable {node : ManagedNode} {label : String}

theorem mem_labels : label ∈ node.labels ↔ label ∈ node.definition.atoms ∨ label = node.name.text := by
  rw [labels, mem_ascending, List.mem_append, List.mem_singleton]

/-- No label is empty. -/
theorem ne_empty_of_mem_labels (h : label ∈ node.labels) : label ≠ "" := by
  rintro rfl
  rcases mem_labels.mp h with h | h
  · obtain ⟨w, hw, hempty⟩ := List.mem_map.mp h
    exact Text.ne_nil_of_mem_wordsFrom hw (by simpa using hempty)
  · have hsafe := node.name.safe
    rw [← h] at hsafe
    cases hsafe

end ManagedNode

theorem ManagedNode.serves_atom {node : ManagedNode} {label : String} :
    node.serves (.atom label) = true ↔ node.isActive = true ∧ label ∈ node.labels := by
  rw [serves, Bool.and_eq_true, Label.Expr.accepts, Label.Expr.eval, List.contains_iff_mem]

namespace Inventory

variable {i : Inventory} {label : String}

/-- The labels of the active nodes are advertised. -/
theorem mem_servedLabels : label ∈ i.servedLabels ↔
    ∃ name node, i.find? name = some node ∧ node.isActive = true ∧ label ∈ node.labels := by
  rw [servedLabels, mem_ascending, List.mem_flatMap]
  constructor
  · rintro ⟨node, hnode, hlabel⟩
    obtain ⟨hvalue, hactive⟩ := List.mem_filter.mp hnode
    obtain ⟨name, hname⟩ := Keyed.mem_values.mp hvalue
    exact ⟨name, node, hname, hactive, hlabel⟩
  · rintro ⟨name, node, hname, hactive, hlabel⟩
    exact ⟨node, List.mem_filter.mpr ⟨Keyed.mem_values.mpr ⟨name, hname⟩, hactive⟩, hlabel⟩

/-- An active node with a label may be lent for it, and no other node. -/
theorem mem_candidates_atom {n : NodeName} : n ∈ i.candidates (.atom label) ↔
    ∃ name node, i.find? name = some node ∧ node.isActive = true ∧ label ∈ node.labels ∧
      node.name = n := by
  simp only [mem_candidates, ManagedNode.serves_atom, and_assoc]

end Inventory

/-! ### One reservation -/

/-- The first node of a list is taken if it is idle. -/
theorem Engine.run_firstIdle_of_idle {m : Machinery} {name : NodeName} (rest : List NodeName)
    (h : m.answer (.isIdle name) = (true, m)) :
    (firstIdle (name :: rest)).run Machinery.answer m = (some name, m) := by
  rw [firstIdle, Dialogue.run_bind, isIdle, Dialogue.run_ask, h]
  rfl

/-- A reservation runs on the first node that may be lent for it, if that is idle and the engine
agrees. -/
theorem Matching.run_tryBind_of_idle {m : Machinery} {inventory : Inventory} {id : ReservationId}
    {r : Reservation} {name : NodeName} {rest : List NodeName}
    (hcandidates : inventory.candidates r.label = name :: rest)
    (hidle : m.answer (.isIdle name) = (true, m))
    (hsubmit : (m.answer (.submit ⟨id, name, r.owner.name⟩)).1 = .ok ()) :
    ((tryBind inventory id r).run Machinery.answer m).1 = some ⟨id, name, r.owner.name⟩ := by
  rw [tryBind, Dialogue.run_bind, hcandidates, Engine.run_firstIdle_of_idle rest hidle]
  dsimp only
  rw [Dialogue.run_bind, Engine.submit, Dialogue.run_ask, Dialogue.run_done]
  dsimp only
  rw [hsubmit]
  rfl

namespace Queue

variable {q : Queue}

/-- Demand that is added while nothing waits is all that waits. -/
theorem pending_enqueue (hq : q.pending = []) (owner : Party) (label : Label.Expr) :
    (q.enqueue owner label).2.pending = [(⟨q.next⟩, ⟨owner, label, .pending⟩)] := by
  have hmem : ∀ x, x ∈ (q.enqueue owner label).2.pending ↔
      x ∈ [((⟨q.next⟩ : ReservationId), (⟨owner, label, .pending⟩ : Reservation))] := by
    rintro ⟨id, r⟩
    have hold : ¬(q.entries.find? id = some r ∧ r.stage = .pending) := by
      rw [← mem_pending, hq]
      exact List.not_mem_nil
    rw [mem_pending, enqueue, Keyed.find?_insert, List.mem_singleton, Prod.mk.injEq]
    by_cases hid : id = ⟨q.next⟩
    · rw [if_pos hid, Option.some.injEq]
      exact ⟨fun h => ⟨hid, h.1.symm⟩, fun h => ⟨h.2.symm, h.2 ▸ rfl⟩⟩
    · rw [if_neg hid]
      exact iff_of_false hold fun h => hid h.1
  have hnodup : (q.enqueue owner label).2.pending.Nodup := .of_map _ (nodup_pending _)
  exact List.perm_singleton.mp
    ((List.perm_ext_iff_of_nodup hnodup (List.nodup_singleton _)).mpr hmem)

/-- A cycle over one reservation binds it, or binds nothing. -/
theorem run_maintain_of_single {id : ReservationId} {r : Reservation} (hq : q.pending = [(id, r)])
    (inventory : Inventory) (m : Machinery) :
    ((q.maintain inventory).run Machinery.answer m).1.1 =
      ((Matching.tryBind inventory id r).run Machinery.answer m).1.toList := by
  rw [maintain, hq, Dialogue.run_bind, Matching.bindAll, Dialogue.run_bind, Dialogue.run_bind]
  exact List.append_nil _

end Queue

/-- An idle node that is there takes a reservation. -/
theorem LocalEngine.answer_submit_of_idle {e : LocalEngine} {b : Binding} {x : EngineNode}
    (hx : e.nodes.find? b.node = some x) (hidle : e.isIdle b.node = true) :
    (e.answer (.submit b)).1 = .ok () := by
  have hfree : x.occupant = none := by
    rwa [isIdle_iff, occupant?_of_find? hx] at hidle
  have hnode : e.idleNode b.node = .ok x := by
    rw [idleNode, hx]
    simp only [hfree]
  simp only [answer, submit, hnode]
  rfl

namespace Deployment

variable {full : Prop} {d : Deployment}

/-- A reservation that asks for a label of an active node runs on such a node after the next cycle, if
nothing else waits, the nodes are idle and no call has a fault. -/
theorem maintain_enqueue_atom (hd : d.Reachable full) (hclear : d.machinery.Clear)
    (hidle : ∀ n, d.inventory.contains n = true → d.machinery.engine.isIdle n = true)
    (hpending : d.queue.pending = []) {label : String}
    (hlabel : label ∈ d.inventory.servedLabels) (owner : Party) :
    ∃ n node, d.inventory.find? n = some node ∧ node.isActive = true ∧ label ∈ node.labels ∧
      (d.enqueue owner (.atom label)).2.maintain.1 =
        [⟨(d.enqueue owner (.atom label)).1, n, owner.name⟩] := by
  obtain ⟨key, served, hserved, hactive, hhas⟩ := Inventory.mem_servedLabels.mp hlabel
  have hmem : served.name ∈ d.inventory.candidates (.atom label) :=
    Inventory.mem_candidates_atom.mpr ⟨key, served, hserved, hactive, hhas, rfl⟩
  obtain ⟨n, rest, hcandidates⟩ := List.exists_cons_of_ne_nil (List.ne_nil_of_mem hmem)
  obtain ⟨n', node, hnode, hactive, hhas, rfl⟩ :=
    Inventory.mem_candidates_atom.mp (hcandidates ▸ List.mem_cons_self)
  obtain rfl : node.name = n' := hd.inService.name_eq hnode
  refine ⟨node.name, node, hnode, hactive, hhas, ?_⟩
  have hfree : d.machinery.engine.isIdle node.name = true :=
    hidle node.name (Option.isSome_iff_exists.mpr ⟨node, hnode⟩)
  obtain ⟨occupant, hengine⟩ := hd.inLine.mirrors.exists_find? hnode
  have hsubmit : (d.machinery.answer (.submit ⟨⟨d.queue.next⟩, node.name, owner.name⟩)).1 =
      .ok () := by
    rw [hclear.answer_eq]
    exact LocalEngine.answer_submit_of_idle hengine hfree
  have hbind := Matching.run_tryBind_of_idle (r := ⟨owner, .atom label, .pending⟩) hcandidates
    (hfree ▸ hclear.answer_isIdle node.name) hsubmit
  have hcycle := Queue.run_maintain_of_single
    (Queue.pending_enqueue hpending owner (.atom label)) d.inventory d.machinery
  rw [hbind] at hcycle
  exact hcycle

/-- **Which labels that are advertised can be asked for.** Consider a label that the pool advertises.
Some expression asks for it exactly when all its characters may stand in an atom. Then it is an
expression by itself, and when the nodes are idle, nothing waits and no call has a fault, a reservation
with this expression runs after the next cycle on an active node that has the label. -/
theorem requested_of_served (hd : d.Reachable full) (hclear : d.machinery.Clear)
    (hidle : ∀ n, d.inventory.contains n = true → d.machinery.engine.isIdle n = true)
    (hpending : d.queue.pending = []) {label : String}
    (hlabel : label ∈ d.inventory.servedLabels) :
    ((∃ s e, Label.Expr.parse s = .ok e ∧ label ∈ e.atoms) ↔
      ∀ c ∈ label.toList, Label.isAtomChar c = true) ∧
    ((∀ c ∈ label.toList, Label.isAtomChar c = true) →
      Label.Expr.parse label = .ok (.atom label) ∧ ∀ owner : Party, ∃ n node,
        d.inventory.find? n = some node ∧ node.isActive = true ∧ label ∈ node.labels ∧
        (d.enqueue owner (.atom label)).2.maintain.1 =
          [⟨(d.enqueue owner (.atom label)).1, n, owner.name⟩]) := by
  obtain ⟨_, _, -, -, hhas⟩ := Inventory.mem_servedLabels.mp hlabel
  have hatom : Label.IsAtom label ↔ ∀ c ∈ label.toList, Label.isAtomChar c = true :=
    ⟨fun h => h.chars, fun h => ⟨ManagedNode.ne_empty_of_mem_labels hhas, h⟩⟩
  refine ⟨Label.Expr.exists_parse_iff.trans hatom, fun hchars => ⟨?_, fun owner => ?_⟩⟩
  · exact Label.Expr.parse_of_isAtom (hatom.mpr hchars)
  · exact maintain_enqueue_atom hd hclear hidle hpending hlabel owner

end Deployment

namespace Sample

/-- A revision that declares the node with two labels, one of which holds a sign. -/
def research : FileTree :=
  .ofList [("config", "orchestrator.url=o"), ("nodes/n1.toml", "labels='a r&d'")]

/-- What is read from it. -/
def researchSnapshot : Snapshot :=
  ⟨snapshot.config, ∅, .ofList [(node, ⟨"a r&d", none, ∅⟩)]⟩

set_option maxRecDepth 8000 in
theorem read_research : Snapshot.read research = .ok researchSnapshot := by
  have hname : Name.parse? .node "n1" = .ok node := Name.parse?_text node
  have htokens : Toml.Token.ofChars "labels='a r&d'".toList =
      [.atom ['l', 'a', 'b', 'e', 'l', 's'], .equals, .text "a r&d" false] := by decide
  have hparse : Toml.parse? "labels='a r&d'" = some [("labels", .text "a r&d")] := by
    rw [Toml.parse?, htokens]
    rfl
  have hmanifest : NodeDefinition.readManifest "labels='a r&d'" = .ok ⟨"a r&d", none, ∅⟩ := by
    rw [NodeDefinition.readManifest, Toml.read, hparse]
    rfl
  have hconfig : Snapshot.readConfig research = .ok snapshot.config := by decide
  have hparties : Snapshot.manifests research Repository.partiesDirectory = [] := by decide
  have hnodes : Snapshot.manifests research Repository.nodesDirectory =
      [("n1", "nodes/n1.toml", "labels='a r&d'")] := by decide
  simp only [Snapshot.read, hconfig, hparties, hnodes, List.foldlM_nil, List.foldlM_cons,
    Snapshot.addNode, Snapshot.readNode, hname, hmanifest]
  rfl

/-- A pass over the revision has brought the node to the engine. -/
def laboratory : Deployment := (Deployment.new none .empty).act (.apply (.ok research))

theorem reachable_laboratory : laboratory.Reachable True :=
  .act (.new none .empty) trivial nofun

theorem clear_laboratory : laboratory.machinery.Clear := by
  rw [laboratory, Deployment.act, Deployment.applied, Pass.run_of_read read_research]
  exact fun _ _ => rfl

/-- The node of the laboratory is idle, and its labels are advertised. -/
theorem laboratory_idle : (∀ n, laboratory.inventory.contains n = true →
      laboratory.machinery.engine.isIdle n = true) ∧ laboratory.queue.pending = [] ∧
    laboratory.inventory.servedLabels = ["a", "n1", "r&d"] := by
  have hkeys : laboratory.inventory.keys = [node] ∧
      laboratory.machinery.engine.isIdle node = true ∧ laboratory.queue.pending = [] ∧
      laboratory.inventory.servedLabels = ["a", "n1", "r&d"] := by
    rw [laboratory, Deployment.act, Deployment.applied, Pass.run_of_read read_research]
    decide
  obtain ⟨hkeys, hidle, hrest⟩ := hkeys
  refine ⟨fun n hn => ?_, hrest⟩
  rw [← Keyed.mem_keys_iff, hkeys, List.mem_singleton] at hn
  exact hn ▸ hidle

end Sample

namespace Deployment

/-- A reservation that asks for the label without a sign runs on the node. -/
theorem requested_of_served_plain_label : ∃ n,
    (Sample.laboratory.enqueue Sample.party (.atom "a")).2.maintain.1 =
      [⟨(Sample.laboratory.enqueue Sample.party (.atom "a")).1, n, Sample.party.name⟩] := by
  obtain ⟨hidle, hpending, hserved⟩ := Sample.laboratory_idle
  have hlabel : "a" ∈ Sample.laboratory.inventory.servedLabels := by
    rw [hserved]
    decide
  obtain ⟨-, hrequested⟩ := requested_of_served Sample.reachable_laboratory
    Sample.clear_laboratory hidle hpending hlabel
  obtain ⟨-, hbinds⟩ := hrequested (List.all_eq_true.mp (by decide))
  obtain ⟨n, -, -, -, -, hbound⟩ := hbinds Sample.party
  exact ⟨n, hbound⟩

/-- The label with the sign is advertised in the same way, and it is no expression. -/
theorem unrequestable_ampersand_label : Sample.laboratory.Reachable True ∧
    (∀ n, Sample.laboratory.inventory.contains n = true →
      Sample.laboratory.machinery.engine.isIdle n = true) ∧
    Sample.laboratory.queue.pending = [] ∧
    "r&d" ∈ Sample.laboratory.inventory.servedLabels ∧
    Label.Expr.parse "r&d" = .error (.strayOperator '&') := by
  obtain ⟨hidle, hpending, hserved⟩ := Sample.laboratory_idle
  refine ⟨Sample.reachable_laboratory, hidle, hpending, ?_, by decide⟩
  rw [hserved]
  decide

end Deployment

end NodeLending
