import NodeLending.Proofs.Engine.Roster

/-!
# Engines that break down for some nodes

An engine may fail whenever it is called to create, redefine or remove one of some nodes, while it
answers for the others as ever. A call that fails has no effect. This is what a pass meets that has
no rivals: a sound engine is one that breaks down for no node.

The answers of such an engine are listed once, together with a record of the calls, and read off for
each kind of call from what the engine has under the name of the node.

## Main definitions

* `Breakdown`, `Machinery.under`: for which nodes an engine fails, and an engine that does so.
* `Machinery.Suffers`, `Breakdown.Reacts`: its answers, each with the calls so far.
* `Breakdown.Reaches`: calls for one node have been made.

## Main results

* `Machinery.Suffers.reacts`: an engine that breaks down answers as listed.
* `Breakdown.Reacts.reaches`: a call leaves the nodes alone that it is not for.
-/

namespace NodeLending

open Engine (Call)

/-- The nodes that an engine fails for when it is called to create, redefine or remove them, each
with its reasons. -/
abbrev Breakdown : Type := NodeName → Option (Call.Kind → String)

/-- The faults of a breakdown. -/
def Breakdown.fault? (b : Breakdown) (kind : Call.Kind) (name : NodeName) : Option Fault :=
  match kind with
  | .create | .update | .remove => (b name).map fun reason => ⟨.failed (reason kind), false⟩
  | _ => none

namespace Machinery

/-- The engine with this breakdown and nothing else that keeps it from working. -/
def under (m : Machinery) (b : Breakdown) : Machinery :=
  ⟨{ m.engine with failing := false }, b.fault?⟩

/-- The engine has this breakdown, and nothing else keeps it from working. -/
structure Suffers (m : Machinery) (b : Breakdown) : Prop where
  fault?_eq : m.fault? = b.fault?
  failing : m.engine.failing = false

theorem suffers_under (m : Machinery) (b : Breakdown) : (m.under b).Suffers b := ⟨rfl, rfl⟩

/-- A sound engine breaks down for no node. -/
theorem Sound.suffers {m : Machinery} (h : m.Sound) : m.Suffers fun _ => none where
  fault?_eq := by
    funext kind name
    rw [h.fault?]
    cases kind <;> rfl
  failing := h.failing

end Machinery

/-! ### Transitions -/

namespace LocalEngine

variable {e e' : LocalEngine} {c : Call} {a : c.Answer} {n : NodeName}

/-- A call leaves the nodes alone that it is not for. -/
theorem Transition.find?_of_ne (h : e.Transition c a e') (hn : n ≠ c.node) :
    e'.nodes.find? n = e.nodes.find? n := by
  cases h with
  | created => exact find?_put.trans (if_neg hn)
  | updated | submitted | completed => exact find?_put.trans (if_neg hn)
  | removed => exact find?_drop.trans (if_neg hn)
  | _ => rfl

/-- A sound engine does not refuse a node that is there and idle. -/
theorem not_refusal_of_idle {node : EngineNode} {err : EngineError} (hc : c.needsIdle = true)
    (hf : e.failing = false) (hn : e.nodes.find? c.node = some node)
    (hidle : node.occupant = none) : ¬e.Refusal c err := by
  intro h
  have hthere : e.roster c.node ≠ none := by
    rw [roster_of_find? hn]
    exact Option.some_ne_none _
  obtain ⟨r, -, hbusy⟩ := h.exists_occupied hc hf hthere
  rw [isIdle_of_find? hn hidle] at hbusy
  cases hbusy

end LocalEngine

/-! ### Answers -/

/-- The answers of an engine that breaks down, with the calls so far: it fails when it is to create,
redefine or remove a node that it fails for, and is sound otherwise. -/
def Breakdown.Reacts (b : Breakdown) :
    Dialogue.Reaction Call Call.Answer (List Call × LocalEngine) := fun c s a s' =>
  s'.1 = s.1 ++ [c] ∧
    ((∃ reason, c.isLifecycle = true ∧ b c.node = some reason ∧
        a = Fault.answer ⟨.failed (reason c.kind), false⟩ c ∧ s'.2 = s.2) ∨
      (c.isLifecycle = true → b c.node = none) ∧ s.2.failing = false ∧ s.2.Transition c a s'.2)

/-- An engine that breaks down answers as listed. -/
theorem Machinery.Suffers.reacts {t : List Call × Machinery} {b : Breakdown} (h : t.2.Suffers b)
    (c : Call) : (Dialogue.noting answer c t).2.2.Suffers b ∧
      b.Reacts c (t.1, t.2.engine) (Dialogue.noting answer c t).1
        ((Dialogue.noting answer c t).2.1, (Dialogue.noting answer c t).2.2.engine) := by
  obtain ⟨l, m⟩ := t
  refine ⟨⟨(fault?_answer c m).trans h.fault?_eq, (failing_answer c m).trans h.failing⟩, ?_⟩
  change b.Reacts c (l, m.engine) (m.answer c).1 (l ++ [c], (m.answer c).2.engine)
  -- The engine is reached unless it is to create, redefine or remove a node that it fails for.
  have hreached : (c.isLifecycle = true → b c.node = none) →
      b.Reacts c (l, m.engine) (m.answer c).1 (l ++ [c], (m.answer c).2.engine) := by
    intro hc
    have hnone : m.fault? c.kind c.node = none := by
      rw [h.fault?_eq]
      cases c with
      | create | update | remove => exact Option.map_eq_none_iff.mpr (hc rfl)
      | _ => rfl
    rw [answer_of_none hnone]
    exact ⟨rfl, Or.inr ⟨hc, h.failing, m.engine.transition c⟩⟩
  by_cases hc : c.isLifecycle = true
  · cases hb : b c.node with
    | none => exact hreached fun _ => hb
    | some reason =>
      have hsome : m.fault? c.kind c.node = some ⟨.failed (reason c.kind), false⟩ := by
        rw [h.fault?_eq]
        cases c with
        | create | update | remove => exact Option.map_eq_some_iff.mpr ⟨reason, hb, rfl⟩
        | _ => cases hc
      have ha : m.answer c = (Fault.answer ⟨.failed (reason c.kind), false⟩ c, m) := by
        rw [answer, hsome]
      rw [ha]
      exact ⟨rfl, Or.inl ⟨reason, hc, hb, rfl, rfl⟩⟩
  · exact hreached fun hlife => absurd hlife hc

/-! ### Engines that have been told to fail -/

/-- An engine that has been told to fail does so for every node. -/
def LocalEngine.breakdown (e : LocalEngine) : Breakdown := fun _ =>
  if e.failing then some fun _ => "local engine configured to fail" else none

theorem LocalEngine.breakdown_of_failing {e : LocalEngine} (h : e.failing = true)
    (name : NodeName) : e.breakdown name = some fun _ => "local engine configured to fail" :=
  if_pos h

theorem LocalEngine.breakdown_of_not_failing {e : LocalEngine} (h : e.failing = false)
    (name : NodeName) : e.breakdown name = none := by
  rw [breakdown, h]
  rfl

/-- An engine that may have been told to fail does so for all nodes or for none. -/
theorem LocalEngine.breakdown_total (e : LocalEngine) :
    (∀ name, e.breakdown name = none) ∨ ∀ name, e.breakdown name ≠ none := by
  cases hf : e.failing with
  | false => exact .inl (breakdown_of_not_failing hf)
  | true =>
    refine .inr fun name => ?_
    rw [breakdown_of_failing hf]
    exact Option.some_ne_none _

theorem LocalEngine.failing_of_breakdown {e : LocalEngine} {name : NodeName}
    {reason : Call.Kind → String} (h : e.breakdown name = some reason) :
    e.failing = true ∧ ∀ kind, .failed (reason kind) = toldToFail := by
  rw [breakdown] at h
  split at h
  · next hf =>
    cases h
    exact ⟨hf, fun _ => rfl⟩
  · cases h

/-- An engine that has been told to fail refuses to create, redefine and remove nodes. -/
theorem LocalEngine.answer_of_failing {e : LocalEngine} {c : Call} (h : e.failing = true)
    (hc : c.isLifecycle = true) : e.answer c = (Fault.answer ⟨toldToFail, false⟩ c, e) := by
  cases c with
  | create | update | remove =>
    simp only [answer, create, update, remove, if_pos h]
    rfl
  | _ => cases hc

/-- Only calls to create, redefine or remove a node notice that an engine has been told to fail. -/
theorem LocalEngine.answer_not_failing {e : LocalEngine} {c : Call}
    (h : c.isLifecycle = true → e.failing = false) :
    answer c { e with failing := false } =
      ((e.answer c).1, { (e.answer c).2 with failing := false }) := by
  have hkept : (e.answer c).2.failing = e.failing :=
    Machinery.failing_answer c ⟨e, fun _ _ => none⟩
  cases c with
  | isIdle | existing => rfl
  | submit b =>
    change settle _ ((e.idleNode b.node).map _) = _
    rw [answer, submit]
    cases e.idleNode b.node <;> rfl
  | complete b =>
    rw [answer, answer, complete, complete]
    dsimp only
    split
    · rfl
    · split <;> rfl
  | create | update | remove =>
    have hself : ∀ {e : LocalEngine}, e.failing = false → { e with failing := false } = e := by
      rintro ⟨_, _, _⟩ rfl
      rfl
    rw [hself (h rfl)]
    exact congrArg (Prod.mk _) (hself (hkept.trans (h rfl))).symm

namespace Machinery

/-- No call has a fault. -/
def Clear (m : Machinery) : Prop := ∀ kind name, m.fault? kind name = none

namespace Clear

variable {m : Machinery}

theorem answer_eq (h : m.Clear) (c : Call) :
    m.answer c = ((m.engine.answer c).1, { m with engine := (m.engine.answer c).2 }) :=
  answer_of_none (h _ _)

/-- An engine that has been told to fail is left as it is. -/
theorem answer_of_failing (h : m.Clear) (hf : m.engine.failing = true) {c : Call}
    (hc : c.isLifecycle = true) :
    m.answer c = (Fault.answer ⟨LocalEngine.toldToFail, false⟩ c, m) := by
  rw [h.answer_eq, LocalEngine.answer_of_failing hf hc]

theorem answer_isIdle (h : m.Clear) (name : NodeName) :
    m.answer (.isIdle name) = (m.engine.isIdle name, m) :=
  h.answer_eq _

theorem answer (h : m.Clear) (c : Call) :
    (m.answer c).2.Clear ∧ (m.answer c).2.engine.breakdown = m.engine.breakdown := by
  constructor
  · intro kind name
    rw [fault?_answer]
    exact h kind name
  · unfold LocalEngine.breakdown
    rw [failing_answer]

/-- An engine that has been told to fail answers as if it did so for each node on its own. -/
theorem answer_under (h : m.Clear) (c : Call) : (m.under m.engine.breakdown).answer c =
    ((m.answer c).1, (m.answer c).2.under m.engine.breakdown) := by
  by_cases hfail : c.isLifecycle = true ∧ m.engine.failing = true
  · obtain ⟨hc, hf⟩ := hfail
    have hfault : (m.under m.engine.breakdown).fault? c.kind c.node =
        some ⟨LocalEngine.toldToFail, false⟩ := by
      have hb := m.engine.breakdown_of_failing hf
      cases c with
      | create | update | remove => exact Option.map_eq_some_iff.mpr ⟨_, hb _, rfl⟩
      | _ => cases hc
    rw [h.answer_eq, LocalEngine.answer_of_failing hf hc, Machinery.answer, hfault]
  · have hreached : c.isLifecycle = true → m.engine.failing = false := fun hc =>
      Bool.eq_false_iff.mpr fun hf => hfail ⟨hc, hf⟩
    have hnone : (m.under m.engine.breakdown).fault? c.kind c.node = none := by
      cases c with
      | create | update | remove =>
        exact Option.map_eq_none_iff.mpr (m.engine.breakdown_of_not_failing (hreached rfl) _)
      | _ => rfl
    rw [answer_of_none hnone, h.answer_eq]
    change ((LocalEngine.answer c { m.engine with failing := false }).1,
      (⟨(LocalEngine.answer c { m.engine with failing := false }).2, _⟩ : Machinery)) = _
    rw [LocalEngine.answer_not_failing hreached]
    rfl

/-- An engine that may have been told to fail answers as one that breaks down. -/
theorem reacts {t : List Call × Machinery} {b : Breakdown} (h : t.2.Clear)
    (hb : t.2.engine.breakdown = b) (c : Call) :
    ((Dialogue.noting Machinery.answer c t).2.2.Clear ∧
      (Dialogue.noting Machinery.answer c t).2.2.engine.breakdown = b) ∧
    b.Reacts c (t.1, (t.2.under b).engine) (Dialogue.noting Machinery.answer c t).1
      ((Dialogue.noting Machinery.answer c t).2.1,
        ((Dialogue.noting Machinery.answer c t).2.2.under b).engine) := by
  subst hb
  refine ⟨h.answer c, ?_⟩
  have hreacts := ((t.2.suffers_under t.2.engine.breakdown).reacts (t := (t.1, t.2.under _)) c).2
  change Breakdown.Reacts _ c _ ((t.2.under _).answer c).1
    (t.1 ++ [c], ((t.2.under _).answer c).2.engine) at hreacts
  rwa [h.answer_under] at hreacts

end Clear

end Machinery

namespace Breakdown

variable {b : Breakdown} {s s₁ s' : List Call × LocalEngine} {name : NodeName} {handle : NodeHandle}
  {d : NodeDefinition} {node : EngineNode}

/-- Calls for the node under a name have been made. -/
structure Reaches (name : NodeName) (s : List Call × LocalEngine) (l : List Call)
    (s' : List Call × LocalEngine) : Prop where
  record : s'.1 = s.1 ++ l
  node : ∀ c ∈ l, c.node = name
  frame : ∀ n ≠ name, s'.2.nodes.find? n = s.2.nodes.find? n

theorem Reaches.nil : Reaches name s [] s :=
  ⟨(List.append_nil _).symm, by simp, fun _ _ => rfl⟩

theorem Reaches.append {l l' : List Call} (h : Reaches name s l s₁) (h' : Reaches name s₁ l' s') :
    Reaches name s (l ++ l') s' where
  record := by rw [h'.record, h.record, List.append_assoc]
  node c hc := (List.mem_append.mp hc).elim (h.node c) (h'.node c)
  frame n hn := (h'.frame n hn).trans (h.frame n hn)

/-- A call is for one node, and leaves the others alone. -/
theorem Reacts.reaches {c : Call} {a : c.Answer} (h : b.Reacts c s a s') (hc : c.node = name) :
    Reaches name s [c] s' := by
  refine ⟨h.1, by simpa using hc, fun n hn => ?_⟩
  rcases h.2 with ⟨_, _, _, _, he⟩ | ⟨_, _, ht⟩
  · rw [he]
  · exact ht.find?_of_ne (hc ▸ hn)

/-! ### The kinds of calls -/

theorem Reacts.isIdle {idle : Bool} (h : b.Reacts (.isIdle name) s idle s') :
    s'.2 = s.2 ∧ idle = s.2.isIdle name := by
  obtain ⟨-, ⟨_, hc, -⟩ | ⟨-, -, ht⟩⟩ := h
  · cases hc
  · generalize s'.2 = e' at ht
    cases ht
    exact ⟨rfl, rfl⟩

theorem Reacts.existing {found : Option (NodeHandle × NodeDefinition)}
    (h : b.Reacts (.existing name) s found s') : s'.2 = s.2 ∧ found = s.2.existing name := by
  obtain ⟨-, ⟨_, hc, -⟩ | ⟨-, -, ht⟩⟩ := h
  · cases hc
  · generalize s'.2 = e' at ht
    cases ht
    exact ⟨rfl, rfl⟩

/-- A node is created unless the engine fails for it or it is there already. -/
theorem Reacts.create {a : Except EngineError NodeHandle} (h : b.Reacts (.create name d) s a s') :
    (∃ reason, b name = some reason ∧ a = .error (.failed (reason .create)) ∧ s'.2 = s.2) ∨
    b name = none ∧ (s.2.nodes.find? name = none ∧ (∃ k, a = .ok ⟨name, k⟩ ∧
        s'.2.nodes.find? name = some ⟨⟨name, k⟩, d, none⟩) ∨
      s.2.nodes.find? name ≠ none ∧ a = .error (.alreadyExists name) ∧ s'.2 = s.2) := by
  obtain ⟨-, ⟨reason, -, hb, ha, he⟩ | ⟨hb, hf, ht⟩⟩ := h
  · exact Or.inl ⟨reason, hb, ha, he⟩
  · refine Or.inr ⟨hb rfl, ?_⟩
    generalize s'.2 = e' at ht
    cases ht with
    | created _ hnone => exact Or.inl ⟨hnone, _, rfl, LocalEngine.find?_put.trans (if_pos rfl)⟩
    | createRefused href =>
      cases href with
      | failing _ hfail =>
        rw [hf] at hfail
        cases hfail
      | alreadyExists hsome => exact Or.inr ⟨hsome, rfl, rfl⟩
      | unknownNode hneeds => cases hneeds
      | occupied hneeds => cases hneeds

/-- An idle node is redefined unless the engine fails for it. -/
theorem Reacts.update {a : Except EngineError NodeHandle} (h : b.Reacts (.update handle d) s a s')
    (hn : s.2.nodes.find? handle.name = some node) (hidle : node.occupant = none) :
    (∃ reason, b handle.name = some reason ∧ a = .error (.failed (reason .update)) ∧
      s'.2 = s.2) ∨
    b handle.name = none ∧ a = .ok node.handle ∧
      s'.2.nodes.find? handle.name = some { node with definition := d } := by
  obtain ⟨-, ⟨reason, -, hb, ha, he⟩ | ⟨hb, hf, ht⟩⟩ := h
  · exact Or.inl ⟨reason, hb, ha, he⟩
  · refine Or.inr ⟨hb rfl, ?_⟩
    generalize s'.2 = e' at ht
    cases ht with
    | updated _ hn' =>
      obtain rfl := Option.some.inj (hn.symm.trans hn')
      exact ⟨rfl, LocalEngine.find?_put.trans (if_pos rfl)⟩
    | updateRefused href => exact absurd href (LocalEngine.not_refusal_of_idle rfl hf hn hidle)

/-- An idle node is removed unless the engine fails for it. -/
theorem Reacts.remove {a : Except EngineError Unit} (h : b.Reacts (.remove handle) s a s')
    (hn : s.2.nodes.find? handle.name = some node) (hidle : node.occupant = none) :
    (∃ reason, b handle.name = some reason ∧ a = .error (.failed (reason .remove)) ∧
      s'.2 = s.2) ∨
    b handle.name = none ∧ a = .ok () ∧ s'.2.nodes.find? handle.name = none := by
  obtain ⟨-, ⟨reason, -, hb, ha, he⟩ | ⟨hb, hf, ht⟩⟩ := h
  · exact Or.inl ⟨reason, hb, ha, he⟩
  · refine Or.inr ⟨hb rfl, ?_⟩
    generalize s'.2 = e' at ht
    cases ht with
    | removed => exact ⟨rfl, LocalEngine.find?_drop.trans (if_pos rfl)⟩
    | removeRefused href => exact absurd href (LocalEngine.not_refusal_of_idle rfl hf hn hidle)

end Breakdown

end NodeLending
