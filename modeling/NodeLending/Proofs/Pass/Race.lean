import NodeLending.Proofs.Pass.Report
import NodeLending.Proofs.Pool.Mirror

/-!
# Passes among rivals

A pass looks whether a node is idle and redefines or removes it afterwards. Reservations go on
meanwhile, so a node that has been found idle may be in use when the next call arrives, and one that
has been found in use may be free again. Here a pass makes its calls while rivals start and end
reservations on the engine, before each call and once more before the pass is published. Which
ones they start and end may depend on all that has happened, so every interleaving is that of some
rivals.

No call changes a node that it finds in use, and the pass does not fail. Each call that finds its
node in use is counted, as a deferred change or as a pending removal.

## Main definitions

* `Errand`, `Record`, `Rivals`, `Deployment.race`: a pass among rivals.
* `Engine.Call.findsBusy`: the call finds its node in use.
* `Deployment.Reachable`: what passes among rivals and other acts lead to.

## Main results

* `Deployment.race_alone`: a pass without rivals is a pass like any other.
* `Change.ensures_tallied`: how a change among rivals comes out.
* `Deployment.race_harmless`: how a pass among rivals comes out.
-/

namespace NodeLending

open Engine (Call)

/-! ### Rivals -/

/-- What is done on an engine for a reservation. -/
inductive Errand where
  /-- The reservation starts. -/
  | submit (b : Binding)
  /-- The reservation ends. -/
  | complete (b : Binding)

/-- The call of an errand. -/
def Errand.call : Errand → Call
  | submit b => .submit b
  | complete b => .complete b

/-- The calls of a pass, each with the engine that it found. -/
abbrev Record : Type := List (Call × Machinery)

/-- What rivals do next, after the calls so far. -/
abbrev Rivals : Type := Record → List Errand

namespace Machinery

/-- The engine after errands. -/
def errands (m : Machinery) (l : List Errand) : Machinery :=
  l.foldl (fun m x => (m.answer x.call).2) m

end Machinery

/-- The answers to the calls of a pass among rivals, with the record of the calls. -/
def Rivals.answer (rivals : Rivals) (c : Call) (t : Record × Machinery) :
    c.Answer × Record × Machinery :=
  Dialogue.amid Machinery.answer (fun record m => m.errands (rivals record)) c t

/-- A pass among rivals. -/
structure Race where
  /-- How the pass ends. -/
  result : PassResult
  /-- The pool after it. -/
  pool : Pool
  /-- The calls of the pass. -/
  record : Record
  /-- The engine when the pass is published. -/
  machinery : Machinery

namespace Deployment

/-- A pass over what has been fetched among rivals. -/
def race (d : Deployment) (fetched : Except FetchError FileTree) (rivals : Rivals) : Race :=
  let x := (Pass.run fetched d.pool).run rivals.answer ([], d.machinery)
  ⟨x.1.1, x.1.2, x.2.1, x.2.2.errands (rivals x.2.1)⟩

/-- Without rivals this is a pass like any other. -/
theorem race_alone (d : Deployment) (fetched : Except FetchError FileTree) :
    (d.race fetched fun _ => []).result = (d.applied fetched).1.1 ∧
      (d.race fetched fun _ => []).pool = (d.applied fetched).1.2 ∧
      (d.race fetched fun _ => []).machinery = (d.applied fetched).2 := by
  have h := Dialogue.run_amid_idle Machinery.answer (Pass.run fetched d.pool) ([], d.machinery)
  exact ⟨congrArg Prod.fst h.1, congrArg Prod.snd h.1, h.2⟩

end Deployment

namespace Machinery

variable {m : Machinery}

/-- What every errand keeps is kept by a number of them. -/
theorem errands_induction {I : Machinery → Prop}
    (hI : ∀ (x : Errand) m, I m → I (m.answer x.call).2) (l : List Errand) (h : I m) :
    I (m.errands l) := by
  induction l generalizing m with
  | nil => exact h
  | cons x l ih => exact ih (hI x m h)

theorem Sound.errands (h : m.Sound) (l : List Errand) : (m.errands l).Sound :=
  errands_induction (fun x _ hm => hm.answer x.call) l h

theorem Honest.errands (h : m.Honest) (l : List Errand) : (m.errands l).Honest :=
  errands_induction (fun x m hm => (roster_reacts x.call m hm).1) l h

/-- Errands do nothing to the nodes themselves. -/
theorem Honest.roster_errands (h : m.Honest) (l : List Errand) :
    (m.errands l).engine.roster = m.engine.roster := by
  have hstep : ∀ (x : Errand) (m' : Machinery),
      m'.Honest ∧ m'.engine.roster = m.engine.roster →
        (m'.answer x.call).2.Honest ∧ (m'.answer x.call).2.engine.roster = m.engine.roster := by
    rintro x m' ⟨hm, heq⟩
    obtain ⟨hm', hturn⟩ := roster_reacts x.call m' hm
    have hsame := hturn.eq_of_isLifecycle (by cases x <;> rfl)
    exact ⟨hm', hsame.trans heq⟩
  exact (errands_induction hstep l ⟨h, rfl⟩).2

end Machinery

/-- Honest faults keep a call among rivals a call to the roster. -/
theorem Rivals.roster_reacts (rivals : Rivals) (c : Call)
    (t : Record × Machinery) (ht : t.2.Honest) :
    (rivals.answer c t).2.2.Honest ∧ Roster.Reacts c t.2.engine.roster (rivals.answer c t).1
      (rivals.answer c t).2.2.engine.roster := by
  have hm : (t.2.errands (rivals t.1)).Honest := ht.errands (rivals t.1)
  rw [← ht.roster_errands (rivals t.1)]
  exact Machinery.roster_reacts c _ hm

/-! ### Calls among rivals -/

/-- Whether the call finds its node in use. A call that creates or looks up a node does not mind. -/
def Engine.Call.findsBusy (c : Call) (m : Machinery) : Bool :=
  match c with
  | .isIdle name => !m.engine.isIdle name
  | .update handle _ | .remove handle => !m.engine.isIdle handle.name
  | _ => false

namespace Race

/-- The answers of a sound engine among rivals, with the record of the calls. The rivals leave the
nodes themselves as they are. -/
def Reacts : Dialogue.Reaction Call Call.Answer (Record × Machinery) :=
  fun c s a s' => ∃ m : Machinery, m.engine.roster = s.2.engine.roster ∧
    m.engine.failing = false ∧ s'.1 = s.1 ++ [(c, m)] ∧ m.engine.Transition c a s'.2.engine

/-- A sound engine among rivals answers in this way. -/
theorem reacts (rivals : Rivals) (c : Call) (t : Record × Machinery)
    (ht : t.2.Sound) : (rivals.answer c t).2.2.Sound ∧
      Reacts c t (rivals.answer c t).1 (rivals.answer c t).2 := by
  have hm : (t.2.errands (rivals t.1)).Sound := ht.errands (rivals t.1)
  exact ⟨hm.answer c, _, ht.honest.roster_errands _, hm.failing, rfl, hm.transition c⟩

variable {s s' : Record × Machinery} {name : NodeName} {handle : NodeHandle}
  {d : NodeDefinition}

/-- A call among rivals is a call to the roster. -/
theorem Reacts.turn {c : Call} {a : c.Answer} (h : Reacts c s a s') :
    Roster.Reacts c s.2.engine.roster a s'.2.engine.roster := by
  obtain ⟨m, hroster, -, -, ht⟩ := h
  rw [← hroster]
  exact ht.turn

theorem Reacts.isIdle {idle : Bool} (h : Reacts (.isIdle name) s idle s') :
    ∃ m, s'.1 = s.1 ++ [(.isIdle name, m)] ∧ Call.findsBusy (.isIdle name) m = !idle := by
  obtain ⟨m, -, -, hs, ht⟩ := h
  refine ⟨m, hs, ?_⟩
  generalize s'.2.engine = e' at ht
  cases ht
  rfl

/-- A node that is there is redefined, or it is found in use. -/
theorem Reacts.update {a : Except EngineError NodeHandle} (h : Reacts (.update handle d) s a s')
    (hn : s.2.engine.roster handle.name ≠ none) :
    ∃ m, s'.1 = s.1 ++ [(.update handle d, m)] ∧
      ((∃ kept, a = .ok kept) ∧ Call.findsBusy (.update handle d) m = false ∨
        (∃ r, a = .error (.occupied handle.name r)) ∧
          Call.findsBusy (.update handle d) m = true) := by
  obtain ⟨m, hroster, hf, hs, ht⟩ := h
  refine ⟨m, hs, ?_⟩
  rw [Call.findsBusy]
  generalize s'.2.engine = e' at ht
  cases ht with
  | updated _ h hidle =>
    rw [LocalEngine.isIdle_of_find? h hidle]
    exact Or.inl ⟨⟨_, rfl⟩, rfl⟩
  | updateRefused h =>
    obtain ⟨r, rfl, hbusy⟩ := h.exists_occupied rfl hf (hroster ▸ hn)
    rw [show m.engine.isIdle handle.name = false from hbusy]
    exact Or.inr ⟨⟨r, rfl⟩, rfl⟩

/-- A node that is there is removed, or it is found in use. -/
theorem Reacts.remove {a : Except EngineError Unit} (h : Reacts (.remove handle) s a s')
    (hn : s.2.engine.roster handle.name ≠ none) :
    ∃ m, s'.1 = s.1 ++ [(.remove handle, m)] ∧
      (a = .ok () ∧ Call.findsBusy (.remove handle) m = false ∨
        (∃ r, a = .error (.occupied handle.name r)) ∧
          Call.findsBusy (.remove handle) m = true) := by
  obtain ⟨m, hroster, hf, hs, ht⟩ := h
  refine ⟨m, hs, ?_⟩
  rw [Call.findsBusy]
  generalize s'.2.engine = e' at ht
  cases ht with
  | removed _ h hidle =>
    rw [LocalEngine.isIdle_of_find? h hidle]
    exact Or.inl ⟨rfl, rfl⟩
  | removeRefused h =>
    obtain ⟨r, rfl, hbusy⟩ := h.exists_occupied rfl hf (hroster ▸ hn)
    rw [show m.engine.isIdle handle.name = false from hbusy]
    exact Or.inr ⟨⟨r, rfl⟩, rfl⟩

/-- A node is created, or it is there already. -/
theorem Reacts.create {a : Except EngineError NodeHandle} (h : Reacts (.create name d) s a s') :
    ∃ m, s'.1 = s.1 ++ [(.create name d, m)] ∧
      ((∃ handle, a = .ok handle) ∨
        a = .error (.alreadyExists name) ∧ s.2.engine.roster name ≠ none) := by
  obtain ⟨m, hroster, hf, hs, ht⟩ := h
  refine ⟨m, hs, ?_⟩
  generalize s'.2.engine = e' at ht
  cases ht with
  | created => exact Or.inl ⟨_, rfl⟩
  | createRefused h =>
    cases h with
    | failing _ h =>
      rw [hf] at h
      cases h
    | alreadyExists h =>
      refine Or.inr ⟨rfl, ?_⟩
      rw [← hroster]
      exact fun hnone => h (LocalEngine.roster_eq_none_iff.mp hnone)
    | unknownNode hc => cases hc
    | occupied hc => cases hc

/-- A node that is looked up is found. -/
theorem Reacts.existing {found : Option (NodeHandle × NodeDefinition)}
    (h : Reacts (.existing name) s found s') :
    ∃ m, s'.1 = s.1 ++ [(.existing name, m)] ∧ found = s.2.engine.roster name := by
  obtain ⟨m, hroster, -, hs, ht⟩ := h
  refine ⟨m, hs, ?_⟩
  rw [← hroster]
  generalize s'.2.engine = e' at ht
  cases ht
  rfl

end Race

/-! ### Changes among rivals -/

/-- A change has not failed, and each of its calls that has found the node in use is counted: as a
deferred change if the node is declared, and as a pending removal if it is not. -/
structure Change.Outcome.Tallied (declared : Bool) (name : NodeName) (o : Change.Outcome)
    (l : Record) : Prop where
  /-- The change has not failed. -/
  failure : o.failure = none
  /-- All calls are about the node. -/
  node : ∀ x ∈ l, x.1.node = name
  /-- The count of deferred changes. -/
  deferred : o.report.deferred = l.countP fun x => declared && x.1.findsBusy x.2
  /-- The count of pending removals. -/
  pendingRemoval : o.report.pendingRemoval = l.countP fun x => !declared && x.1.findsBusy x.2

namespace Change

open Race (Reacts)

variable {full : Prop} {declared : Bool} {name : NodeName} {node : ManagedNode} {d : NodeDefinition}
  {o : Outcome} {s s₁ s' : Record × Machinery}

/-- The calls that a change has made are tallied. -/
def TalliedFrom (declared : Bool) (name : NodeName) (s : Record × Machinery)
    (o : Outcome) (s' : Record × Machinery) : Prop :=
  ∃ l, s'.1 = s.1 ++ l ∧ o.Tallied declared name l

namespace TalliedFrom

/-- There have been no calls. -/
theorem nil (hf : o.failure = none) (hd : o.report.deferred = 0)
    (hp : o.report.pendingRemoval = 0) : TalliedFrom declared name s o s :=
  ⟨[], (List.append_nil _).symm, hf, by simp, hd, hp⟩

/-- A call has not found the node in use. -/
theorem cons {c : Call} {m : Machinery} (hs : s₁.1 = s.1 ++ [(c, m)]) (hc : c.node = name)
    (hidle : c.findsBusy m = false) (h : TalliedFrom declared name s₁ o s') :
    TalliedFrom declared name s o s' := by
  obtain ⟨l, hl, ho⟩ := h
  refine ⟨(c, m) :: l, ?_, ho.failure, ?_, ?_, ?_⟩
  · rw [hl, hs, List.append_assoc, List.singleton_append]
  · rintro x (- | ⟨-, hx⟩)
    · exact hc
    · exact ho.node x hx
  · simp [hidle, ho.deferred]
  · simp [hidle, ho.pendingRemoval]

/-- The only call has found the node in use. -/
theorem busy {c : Call} {m : Machinery} (hs : s'.1 = s.1 ++ [(c, m)]) (hc : c.node = name)
    (hbusy : c.findsBusy m = true) (hf : o.failure = none)
    (hd : o.report.deferred = if declared then 1 else 0)
    (hp : o.report.pendingRemoval = if declared then 0 else 1) :
    TalliedFrom declared name s o s' := by
  refine ⟨[(c, m)], hs, hf, by simpa using hc, ?_, ?_⟩
  · simp [List.countP_cons, hbusy, hd]
  · cases declared <;> simp [hbusy, hp]

/-- The report of a change may be preceded by one that counts neither. -/
theorem add (h : TalliedFrom declared name s o s') {r : PassReport} (hd : r.deferred = 0)
    (hp : r.pendingRemoval = 0) :
    TalliedFrom declared name s { o with report := r + o.report } s' := by
  obtain ⟨l, hl, ho⟩ := h
  refine ⟨l, hl, ho.failure, ho.node, ?_, ?_⟩
  · rw [PassReport.deferred_add, hd, Nat.zero_add, ho.deferred]
  · rw [PassReport.pendingRemoval_add, hp, Nat.zero_add, ho.pendingRemoval]

end TalliedFrom

theorem ensures_applyDefinition_tallied
    (h : s.2.engine.roster.Mirrors full name (some node)) (d : NodeDefinition) :
    (applyDefinition node d).Ensures Reacts (TalliedFrom true name s) s := by
  intro idle s₁ h₁
  obtain ⟨m₁, hs₁, hbusy⟩ := h₁.isIdle
  have hroster : s₁.2.engine.roster = s.2.engine.roster := h₁.turn.eq_of_isLifecycle rfl
  cases idle with
  | false => exact .busy hs₁ h.name_eq hbusy rfl rfl rfl
  | true =>
    intro a s₂ h₂
    have hthere : s₁.2.engine.roster node.handle.name ≠ none := by
      rw [hroster, h.handle_name_eq, h.roster_eq]
      exact Option.some_ne_none _
    -- The node has been found idle, but it may have been taken since.
    obtain ⟨m₂, hs₂, ⟨⟨kept, rfl⟩, hidle⟩ | ⟨⟨r, rfl⟩, hoccupied⟩⟩ := h₂.update hthere
    · exact .cons hs₁ h.name_eq hbusy (.cons hs₂ h.handle_name_eq hidle (.nil rfl rfl rfl))
    · exact .cons hs₁ h.name_eq hbusy (.busy hs₂ h.handle_name_eq hoccupied rfl rfl rfl)

theorem ensures_adopt_tallied (h : s.2.engine.roster.Mirrors full name none)
    (hthere : s.2.engine.roster name ≠ none) (d : NodeDefinition) :
    (adopt name d).Ensures Reacts (TalliedFrom true name s) s := by
  intro found s₁ h₁
  obtain ⟨m₁, hs₁, hfound⟩ := h₁.existing
  have hroster : s₁.2.engine.roster = s.2.engine.roster := h₁.turn.eq_of_isLifecycle rfl
  cases found with
  | none => exact absurd hfound.symm hthere
  | some x =>
    obtain ⟨handle, applied⟩ := x
    have hnode : s₁.2.engine.roster.Mirrors full name (some ⟨name, applied, handle, .active⟩) := by
      rw [hroster]
      exact .of_some rfl (h.named _ hfound.symm) hfound.symm
    change Dialogue.Ensures Reacts (if applied = d then _ else _) _ s₁
    split
    · exact .cons hs₁ rfl rfl (.nil rfl rfl rfl)
    · rw [Dialogue.ensures_bind]
      exact (ensures_applyDefinition_tallied hnode d).mono fun o s' ho =>
        .cons hs₁ rfl rfl (ho.add rfl rfl)

theorem ensures_bring_tallied (h : s.2.engine.roster.Mirrors full name none) (d : NodeDefinition) :
    (bring name d).Ensures Reacts (TalliedFrom true name s) s := by
  intro a s₁ h₁
  -- A node that is there already stays there, so it is found when it is looked up.
  obtain ⟨m₁, hs₁, ⟨handle, rfl⟩ | ⟨rfl, hthere⟩⟩ := h₁.create
  · exact .cons hs₁ rfl rfl (.nil rfl rfl rfl)
  · have hroster : s₁.2.engine.roster = s.2.engine.roster := h₁.turn.eq_of_create
    refine (ensures_adopt_tallied (hroster ▸ h) (hroster ▸ hthere) d).mono fun o s' ho => ?_
    exact .cons hs₁ rfl rfl ho

theorem ensures_remove_tallied (h : s.2.engine.roster.Mirrors full name (some node)) :
    (remove name node).Ensures Reacts (TalliedFrom false name s) s := by
  intro idle s₁ h₁
  obtain ⟨m₁, hs₁, hbusy⟩ := h₁.isIdle
  have hroster : s₁.2.engine.roster = s.2.engine.roster := h₁.turn.eq_of_isLifecycle rfl
  cases idle with
  | false => exact .busy hs₁ rfl hbusy rfl rfl rfl
  | true =>
    intro a s₂ h₂
    have hthere : s₁.2.engine.roster node.handle.name ≠ none := by
      rw [hroster, h.handle_name_eq, h.roster_eq]
      exact Option.some_ne_none _
    obtain ⟨m₂, hs₂, ⟨rfl, hidle⟩ | ⟨⟨r, rfl⟩, hoccupied⟩⟩ := h₂.remove hthere
    · exact .cons hs₁ rfl hbusy (.cons hs₂ h.handle_name_eq hidle (.nil rfl rfl rfl))
    · exact .cons hs₁ rfl hbusy (.busy hs₂ h.handle_name_eq hoccupied rfl rfl rfl)

theorem deferred_reactivation (node : ManagedNode) : (reactivation node).deferred = 0 := by
  rw [reactivation]
  split <;> rfl

theorem pendingRemoval_reactivation (node : ManagedNode) :
    (reactivation node).pendingRemoval = 0 := by
  rw [reactivation]
  split <;> rfl

/-- A change among rivals does not fail, and each of its calls that finds the node in use is
counted. -/
theorem ensures_tallied {change : Change} (h : s.2.engine.roster.Mirrors full name change.before) :
    (change.carryOut name).Ensures Reacts (TalliedFrom change.declared?.isSome name s) s := by
  cases change with
  | keep node =>
    refine TalliedFrom.nil rfl ?_ ?_
    · rw [PassReport.deferred_add, deferred_reactivation]
    · rw [PassReport.pendingRemoval_add, pendingRemoval_reactivation]
  | create d => exact ensures_bring_tallied h d
  | redefine node d =>
    rw [carryOut, Dialogue.ensures_bind]
    exact (ensures_applyDefinition_tallied (h.withRemoval .active) d).mono fun o s' ho =>
      ho.add (deferred_reactivation node) (pendingRemoval_reactivation node)
  | retire node => exact ensures_remove_tallied h

end Change

/-! ### Passes among rivals -/

/-- A pass among rivals has come this far: it has not failed, its nodes are those of the engine, and
the calls that have found their node in use are counted. -/
structure Progress.Tallied (full : Prop) (snapshot : Snapshot) (p : Progress)
    (s : Record × Machinery) : Prop where
  /-- The nodes are those of the engine. -/
  mirrors : p.inventory.Mirrors full s.2.engine.roster
  /-- Nothing has failed. -/
  failures : p.failures = []
  /-- The count of deferred changes. -/
  deferred : p.report.deferred =
    s.1.countP fun x => snapshot.nodes.contains x.1.node && x.1.findsBusy x.2
  /-- The count of pending removals. -/
  pendingRemoval : p.report.pendingRemoval =
    s.1.countP fun x => !snapshot.nodes.contains x.1.node && x.1.findsBusy x.2

namespace Progress.Tallied

variable {full : Prop} {snapshot : Snapshot} {p : Progress}
  {s s' : Record × Machinery}

theorem start {inventory : Inventory} {m : Machinery}
    (h : inventory.Mirrors full m.engine.roster) :
    (Progress.start inventory).Tallied full snapshot ([], m) := ⟨h, rfl, rfl, rfl⟩

theorem result_eq (h : p.Tallied full snapshot s) : p.result = .ok p.report := by
  rw [Progress.result, h.failures]

theorem note (h : p.Tallied full snapshot s) {name : NodeName} {o : Change.Outcome}
    (hline : o.InLine full s.2.engine.roster name s'.2.engine.roster)
    (ho : Change.TalliedFrom (snapshot.nodes.contains name) name s o s') :
    (p.note name o).Tallied full snapshot s' := by
  obtain ⟨l, hl, ho⟩ := ho
  refine ⟨Progress.note_mirrors h.mirrors hline, ?_, ?_, ?_⟩
  · change p.failures ++ o.failure.toList = []
    rw [h.failures, ho.failure]
    rfl
  · change (p.report + o.report).deferred = _
    rw [PassReport.deferred_add, hl, List.countP_append, h.deferred, ho.deferred]
    congr 1
    exact List.countP_congr fun x hx => by rw [ho.node x hx]
  · change (p.report + o.report).pendingRemoval = _
    rw [PassReport.pendingRemoval_add, hl, List.countP_append, h.pendingRemoval, ho.pendingRemoval]
    congr 1
    exact List.countP_congr fun x hx => by rw [ho.node x hx]

end Progress.Tallied

namespace Pass

variable {full : Prop} {s : Record × Machinery}

theorem ensures_perform_tallied (snapshot : Snapshot) {inventory : Inventory}
    (h : (Progress.start inventory).Tallied full snapshot s) :
    (perform snapshot inventory).Ensures Race.Reacts (Progress.Tallied full snapshot) s := by
  refine ensures_perform ?_ h
  intro name change hdeclared p s hbefore hp
  have hname := hp.mirrors name
  rw [hbefore] at hname
  have hline := (Change.ensures_mirrors hname).comap (U := Race.Reacts)
    (v := fun s => s.2.engine.roster) (I := fun _ => True)
    (fun _ _ _ _ _ h => ⟨trivial, h.turn⟩) trivial
  refine (hline.and (Change.ensures_tallied hname)).mono ?_
  rintro o s' ⟨⟨-, hline⟩, ho⟩
  rw [← hdeclared] at ho
  exact hp.note hline ho

/-- A pass among rivals over a revision that is not rejected is published. -/
theorem ensures_run_tallied {tree : FileTree} {snapshot : Snapshot}
    (hread : Snapshot.read tree = .ok snapshot) {pool : Pool} {m : Machinery}
    (h : pool.view.inventory.Mirrors full m.engine.roster) :
    (run (.ok tree) pool).Ensures Race.Reacts
      (fun x s' => ∃ p : Progress, p.Tallied full snapshot s' ∧
        x = (p.result, publish pool snapshot p)) ([], m) := by
  rw [run_of_read hread, Dialogue.ensures_bind]
  exact (ensures_perform_tallied snapshot (.start h)).mono fun p s' hp => ⟨p, hp, rfl⟩

end Pass

/-! ### Deployments among rivals -/

namespace Deployment

variable {full : Prop} {d : Deployment}

/-- The deployment after a pass among rivals, who have made something of the queue as well. -/
def afterRace (d : Deployment) (fetched : Except FetchError FileTree) (rivals : Rivals)
    (queue : Queue) : Deployment :=
  ((d.withMachinery (d.race fetched rivals).machinery).withPool
    (d.race fetched rivals).pool).withQueue queue

/-- What orderly acts and passes among rivals lead to; without a reset, if the pool is to be
full. -/
inductive Reachable (full : Prop) : Deployment → Prop
  | new (repository : Option String) (files : FileTree) : Reachable full (new repository files)
  | act {d : Deployment} {a : Act} (h : Reachable full d) (ha : a.Orderly)
      (hreset : full → a ≠ .reset) : Reachable full (d.act a)
  | race {d : Deployment} (h : Reachable full d) (fetched : Except FetchError FileTree)
      (rivals : Rivals) (queue : Queue) : Reachable full (d.afterRace fetched rivals queue)

/-- No call of a pass among rivals starts or ends a reservation. -/
theorem isExecution_of_mem_record (d : Deployment) (fetched : Except FetchError FileTree)
    (rivals : Rivals) {x : Call × Machinery} (hx : x ∈ (d.race fetched rivals).record) :
    x.1.isExecution = false := by
  have hstep : ∀ c t, c.isExecution = false → (∀ x ∈ t.1, x.1.isExecution = false) →
      ∀ x ∈ (rivals.answer c t).2.1, x.1.isExecution = false := by
    intro c t hc ht x hx
    rcases List.mem_append.mp hx with hx | hx
    · exact ht x hx
    · rw [List.mem_singleton.mp hx]
      exact hc
  have hrun := (Pass.asks_run fetched d.pool).run (s := ([], d.machinery)) hstep (by simp)
  exact hrun x hx

/-- A pass among rivals keeps the pool in line with the engine. -/
theorem InLine.race (h : d.InLine full) (fetched : Except FetchError FileTree) (rivals : Rivals)
    (queue : Queue) : (d.afterRace fetched rivals queue).InLine full := by
  have hrun := (Pass.ensures_mirrors h.mirrors fetched).run (t := ([], d.machinery))
    (v := fun t => t.2.engine.roster) (I := fun t => t.2.Honest) rivals.roster_reacts h.honest
  refine ⟨hrun.1.errands _, fun n => ?_⟩
  exact (hrun.2 n).congr (congrFun (hrun.1.roster_errands _) n)

theorem Reachable.inLine (h : d.Reachable full) : d.InLine full := by
  induction h with
  | new repository files => exact .new repository files
  | act _ ha hreset ih => exact ih.act ha hreset
  | race _ fetched rivals queue ih => exact ih.race fetched rivals queue

/-- Orderly acts may go on from there. -/
theorem Reachable.acts (h : d.Reachable full) {l : List Act} (hl : ∀ a ∈ l, a.Orderly)
    (hreset : full → .reset ∉ l) : (d.acts l).Reachable full := by
  have hacts : ∀ a ∈ l, a.Orderly ∧ (full → a ≠ .reset) :=
    fun a ha => ⟨hl a ha, fun hf heq => hreset hf (heq ▸ ha)⟩
  exact acts_induction (I := Reachable full) (fun _ _ ha hd => hd.act ha.1 ha.2) hacts h

/-- Runs of orderly events may go on from there. -/
theorem Reachable.after (h : d.Reachable full) {events : List Event}
    (he : ∀ e ∈ events, e.Orderly) (hreset : full → .reset ∉ events) :
    (d.after events).Reachable full := by
  refine (leads_after d events).invariant (fun a d ⟨e, hmem, hpart⟩ hd => ?_) h
  refine hd.act (hpart.orderly (he e hmem)) ?_
  rintro hf rfl
  cases hpart
  exact hreset hf hmem

/-- **Rivals do no harm.** Let a pass over a revision that is not rejected make its calls to a sound
engine among rivals. No call changes a node that is in use when the call arrives. The pass does not
fail, and each call that finds its node in use is counted, as deferred if the node is declared and
as a pending removal if it is not. What is published is what the engine has. -/
theorem race_harmless (hd : d.Reachable full) (hsound : d.machinery.Sound) {tree : FileTree}
    {snapshot : Snapshot} (hread : Snapshot.read tree = .ok snapshot) (rivals : Rivals) :
    let r := d.race (.ok tree) rivals
    (∀ x ∈ r.record, ∀ name node, x.2.engine.nodes.find? name = some node →
      node.occupant ≠ none → (x.2.answer x.1).2.engine.nodes.find? name = some node) ∧
    (∃ report, r.result = .ok report ∧
      report.deferred =
        r.record.countP (fun x => snapshot.nodes.contains x.1.node && x.1.findsBusy x.2) ∧
      report.pendingRemoval =
        r.record.countP (fun x => !snapshot.nodes.contains x.1.node && x.1.findsBusy x.2)) ∧
    r.pool.view.snapshot = some snapshot ∧
    (∀ name node, r.pool.view.inventory.find? name = some node → ∃ occupant,
      r.machinery.engine.nodes.find? name = some ⟨node.handle, node.definition, occupant⟩) ∧
    (full → r.pool.view.inventory.keys = r.machinery.engine.nodes.keys) := by
  intro r
  obtain ⟨hs, p, hp, heq⟩ := (Pass.ensures_run_tallied hread hd.inLine.mirrors).run (v := id)
    (I := fun t => t.2.Sound) (Race.reacts rivals) hsound
  -- The errands after the last call leave the nodes of the engine as they are.
  have hmirrors : p.inventory.Mirrors full r.machinery.engine.roster := fun n =>
    (hp.mirrors n).congr (congrFun (hs.honest.roster_errands _) n)
  have hpool : r.pool = Pass.publish d.pool snapshot p := congrArg Prod.snd heq
  refine ⟨fun x hx name node hnode hused => ?_, ?_, ?_, ?_, ?_⟩
  · obtain ⟨id, hid⟩ := Option.ne_none_iff_exists'.mp hused
    refine (x.2.reacts x.1).find?_of_occupied hnode hid fun b hb => ?_
    have hc := d.isExecution_of_mem_record _ rivals hx
    rw [hb] at hc
    cases hc
  · exact ⟨p.report, (congrArg Prod.fst heq).trans hp.result_eq, hp.deferred, hp.pendingRemoval⟩
  · rw [hpool]
    rfl
  · rw [hpool]
    exact fun name node hnode => hmirrors.exists_find? hnode
  · rw [hpool]
    exact hmirrors.keys_eq

end Deployment

namespace Sample

/-- A revision that declares no node. -/
def bareRevision : FileTree := .ofList [("config", "orchestrator.url=o")]

/-- What is read from it. -/
def bareSnapshot : Snapshot := ⟨snapshot.config, ∅, ∅⟩

theorem read_bareRevision : Snapshot.read bareRevision = .ok bareSnapshot := by
  have hconfig : Snapshot.readConfig bareRevision = .ok snapshot.config := by decide
  have hparties : Snapshot.manifests bareRevision Repository.partiesDirectory = [] := by decide
  have hnodes : Snapshot.manifests bareRevision Repository.nodesDirectory = [] := by decide
  simp only [Snapshot.read, hconfig, hparties, hnodes, List.foldlM_nil]
  rfl

/-- A pass has brought the node to the engine. -/
def settled : Deployment :=
  (Deployment.new none .empty).afterRace (.ok revision) (fun _ => []) .empty

/-- Rivals that take the node once it has been found idle. -/
def snatching : Rivals := fun record =>
  if record.length = 1 then [.submit ⟨⟨1⟩, node, party.name⟩] else []

end Sample

namespace Deployment

theorem sound_settled : Sample.settled.machinery.Sound := by
  rw [Sample.settled, afterRace, race, Pass.run_of_read Sample.read_revision]
  exact ⟨fun _ _ => rfl, rfl⟩

/-- The node that is not declared any more is taken between the look and the call, and stays. -/
theorem pendingRemoval_of_lost_race : ∃ report,
    (Sample.settled.race (.ok Sample.bareRevision) Sample.snatching).result = .ok report ∧
      report.pendingRemoval = 1 := by
  have hd : Reachable True Sample.settled := .race (.new none .empty) _ _ _
  obtain ⟨-, ⟨report, hresult, -, hpending⟩, -⟩ :=
    race_harmless hd sound_settled Sample.read_bareRevision Sample.snatching
  refine ⟨report, hresult, hpending.trans ?_⟩
  rw [race, Pass.run_of_read Sample.read_bareRevision, Sample.settled, afterRace, race,
    Pass.run_of_read Sample.read_revision]
  decide

end Deployment

end NodeLending
