import NodeLending.Dialogue

/-!
# What a dialogue ensures

A dialogue is held against something that may answer in more than one way. A *reaction* lists the
answers that are possible in a state, each with the state after it, and a dialogue *ensures* a
condition on its result and the last state when the condition holds at every end that the reaction
leads to. This is a weakest precondition over the tree of the dialogue, so it is proved along the
text of the activity, one question after the other.

Two ways of running a dialogue are read off a reaction. One is `Dialogue.run`, where nothing happens
between two questions. In the other, others act on the state before each question. What they do may
depend on all that has happened so far, so every interleaving of their actions with the questions
is covered by one of their strategies.

## Main definitions

* `Dialogue.Reaction`, `Dialogue.Ensures`: the possible answers, and what holds at every end.
* `Dialogue.Asks`: every question that may be asked has a property.
* `Dialogue.noting`: the answers to a dialogue, with a record of the questions.
* `Dialogue.log`: the questions of a run with their answers.
* `Dialogue.amid`: the answers to a dialogue while others act, with a record of the questions.

## Main results

* `Dialogue.ensures_bind`: a sequence ensures what its parts ensure one after the other.
* `Dialogue.Ensures.comap`, `Dialogue.Ensures.run`: what is ensured against a reaction is ensured
  against each one that it allows, and holds of every run that it allows.
* `Dialogue.Asks.run`: what every question of a kind keeps is kept by a run.
-/

namespace NodeLending

namespace Dialogue

variable {Question : Type} {Answer : Question → Type} {α β σ τ : Type}

/-! ### Ensuring a condition -/

/-- The answers that are possible: a question, the state that it finds, the answer, and the state
after it. -/
abbrev Reaction (Question : Type) (Answer : Question → Type) (σ : Type) : Type :=
  (q : Question) → σ → Answer q → σ → Prop

variable {T : Reaction Question Answer σ}

/-- The condition holds at every end that the reaction leads to. -/
def Ensures (T : Reaction Question Answer σ) :
    Dialogue Question Answer α → (α → σ → Prop) → σ → Prop
  | done a, Q, s => Q a s
  | ask q next, Q, s => ∀ a s', T q s a s' → (next a).Ensures T Q s'

@[simp] theorem ensures_done {a : α} {Q : α → σ → Prop} {s : σ} :
    (done a : Dialogue Question Answer α).Ensures T Q s ↔ Q a s := Iff.rfl

@[simp] theorem ensures_pure {a : α} {Q : α → σ → Prop} {s : σ} :
    (pure a : Dialogue Question Answer α).Ensures T Q s ↔ Q a s := Iff.rfl

theorem ensures_ask {q : Question} {next : Answer q → Dialogue Question Answer α}
    {Q : α → σ → Prop} {s : σ} :
    (ask q next).Ensures T Q s ↔ ∀ a s', T q s a s' → (next a).Ensures T Q s' := Iff.rfl

/-- A sequence ensures what its parts ensure one after the other. -/
@[simp] theorem ensures_bind {d : Dialogue Question Answer α}
    {f : α → Dialogue Question Answer β} {Q : β → σ → Prop} {s : σ} :
    (d >>= f).Ensures T Q s ↔ d.Ensures T (fun a s' => (f a).Ensures T Q s') s := by
  change (d.bind f).Ensures T Q s ↔ _
  induction d generalizing s with
  | done a => exact Iff.rfl
  | ask q next ih =>
    exact forall_congr' fun a => forall_congr' fun s' => imp_congr_right fun _ => ih a

/-- A condition that always holds is ensured. -/
theorem Ensures.of_forall {Q : α → σ → Prop} (h : ∀ a s, Q a s)
    (d : Dialogue Question Answer α) (s : σ) : d.Ensures T Q s := by
  induction d generalizing s with
  | done a => exact h a s
  | ask q next ih => exact fun a s' _ => ih a s'

/-- A weaker condition is ensured too. -/
theorem Ensures.mono {d : Dialogue Question Answer α} {Q R : α → σ → Prop} {s : σ}
    (h : d.Ensures T Q s) (hQR : ∀ a s', Q a s' → R a s') : d.Ensures T R s := by
  induction d generalizing s with
  | done a => exact hQR a s h
  | ask q next ih => exact fun a s' ht => ih a (h a s' ht)

/-- Two conditions that are ensured are ensured together. -/
theorem Ensures.and {d : Dialogue Question Answer α} {Q R : α → σ → Prop} {s : σ}
    (hQ : d.Ensures T Q s) (hR : d.Ensures T R s) :
    d.Ensures T (fun a s' => Q a s' ∧ R a s') s := by
  induction d generalizing s with
  | done a => exact ⟨hQ, hR⟩
  | ask q next ih => exact fun a s' ht => ih a (hQ a s' ht) (hR a s' ht)

/-- What is ensured against a reaction is ensured against each one that it allows, through a view of
the state and under an invariant. -/
theorem Ensures.comap {U : Reaction Question Answer τ} {v : τ → σ} {I : τ → Prop}
    (hT : ∀ q t a t', I t → U q t a t' → I t' ∧ T q (v t) a (v t'))
    {d : Dialogue Question Answer α} {Q : α → σ → Prop} {t : τ} (hI : I t)
    (h : d.Ensures T Q (v t)) : d.Ensures U (fun a t' => I t' ∧ Q a (v t')) t := by
  induction d generalizing t with
  | done a => exact ⟨hI, h⟩
  | ask q next ih =>
    intro a t' ht
    obtain ⟨hI', hq⟩ := hT q t a t' hI ht
    exact ih a hI' (h a (v t') hq)

/-- Against something that answers in one way only there is one run. -/
theorem ensures_answer {answer : (q : Question) → σ → Answer q × σ}
    {d : Dialogue Question Answer α} {Q : α → σ → Prop} {s : σ} :
    d.Ensures (fun q s a s' => answer q s = (a, s')) Q s ↔
      Q (d.run answer s).1 (d.run answer s).2 := by
  induction d generalizing s with
  | done a => exact Iff.rfl
  | ask q next ih =>
    rw [ensures_ask, run_ask, ← ih]
    constructor
    · intro h
      exact h _ _ rfl
    · rintro h a s' heq
      rw [heq] at h
      exact h

/-- What is ensured holds of every run whose answers the reaction allows. The reaction speaks of a
view of the state, and may rely on an invariant that every answer keeps. -/
theorem Ensures.run {answer : (q : Question) → τ → Answer q × τ} {v : τ → σ} {I : τ → Prop}
    (hanswer : ∀ q t, I t → I (answer q t).2 ∧ T q (v t) (answer q t).1 (v (answer q t).2))
    {d : Dialogue Question Answer α} {Q : α → σ → Prop} {t : τ} (hI : I t)
    (h : d.Ensures T Q (v t)) :
    I (d.run answer t).2 ∧ Q (d.run answer t).1 (v (d.run answer t).2) := by
  refine ensures_answer.mp (h.comap (fun q t a t' ht heq => ?_) hI)
  rw [← show (answer q t).1 = a from congrArg Prod.fst heq,
    ← show (answer q t).2 = t' from congrArg Prod.snd heq]
  exact hanswer q t ht

/-! ### The questions of a dialogue -/

/-- Every question that may be asked has the property, whatever the answers. -/
def Asks (P : Question → Prop) : Dialogue Question Answer α → Prop
  | done _ => True
  | ask q next => P q ∧ ∀ a, (next a).Asks P

variable {P : Question → Prop}

theorem Asks.bind {d : Dialogue Question Answer α} {f : α → Dialogue Question Answer β}
    (hd : d.Asks P) (hf : ∀ a, (f a).Asks P) : (d >>= f).Asks P := by
  change (d.bind f).Asks P
  induction d with
  | done a => exact hf a
  | ask q next ih => exact ⟨hd.1, fun a => ih a (hd.2 a)⟩

/-- A question, and what is asked after it. -/
theorem Asks.question {q : Question} {f : Answer q → Dialogue Question Answer β} (hq : P q)
    (hf : ∀ a, (f a).Asks P) : (ask q done >>= f).Asks P := ⟨hq, hf⟩

/-- What the answer to every question of a kind keeps is ensured by a dialogue that asks such
questions only. -/
theorem Asks.ensures {d : Dialogue Question Answer α} {I : σ → Prop}
    (hT : ∀ q s a s', P q → T q s a s' → I s → I s') (hd : d.Asks P) {s : σ} (hs : I s) :
    d.Ensures T (fun _ => I) s := by
  induction d generalizing s with
  | done a => exact hs
  | ask q next ih => exact fun a s' ht => ih a (hd.2 a) (hT q s a s' hd.1 ht hs)

/-- What every question of a kind keeps is kept by a run that asks such questions only. -/
theorem Asks.run {answer : (q : Question) → σ → Answer q × σ} {d : Dialogue Question Answer α}
    {I : σ → Prop} (hanswer : ∀ q s, P q → I s → I (answer q s).2) (hd : d.Asks P) {s : σ}
    (hs : I s) : I (d.run answer s).2 := by
  have hT : ∀ q s a s', P q → answer q s = (a, s') → I s → I s' := by
    intro q s a s' hq heq hs
    simpa only [heq] using hanswer q s hq hs
  exact ensures_answer.mp (hd.ensures hT hs)

/-! ### A record of the questions -/

/-- The answer to a question, with the questions so far kept beside the state. -/
def noting (answer : (q : Question) → σ → Answer q × σ) (q : Question) (t : List Question × σ) :
    Answer q × List Question × σ :=
  ((answer q t.2).1, t.1 ++ [q], (answer q t.2).2)

/-- What is noted of a run is its transcript. -/
theorem run_noting (answer : (q : Question) → σ → Answer q × σ) (d : Dialogue Question Answer α)
    (t : List Question × σ) :
    d.run (noting answer) t =
      ((d.run answer t.2).1, t.1 ++ d.transcript answer t.2, (d.run answer t.2).2) := by
  induction d generalizing t with
  | done a => simp only [run_done, transcript, List.append_nil]
  | ask q next ih =>
    simp only [run_ask, ih, noting, transcript, List.append_assoc, List.singleton_append]

/-- The questions of a run with their answers, in order. -/
def log (answer : (q : Question) → σ → Answer q × σ) (d : Dialogue Question Answer α) (s : σ) :
    List ((q : Question) × Answer q) :=
  match d with
  | done _ => []
  | ask q next => ⟨q, (answer q s).1⟩ :: (next (answer q s).1).log answer (answer q s).2

/-- The log of a sequence is that of its parts. -/
theorem log_bind (answer : (q : Question) → σ → Answer q × σ) (d : Dialogue Question Answer α)
    (f : α → Dialogue Question Answer β) (s : σ) :
    (d >>= f).log answer s =
      d.log answer s ++ (f (d.run answer s).1).log answer (d.run answer s).2 := by
  change (d.bind f).log answer s = _
  induction d generalizing s with
  | done a => rfl
  | ask q next ih => exact congrArg (_ :: ·) (ih _ _)

/-! ### Others between the questions -/

/-- The answer to a question while others act. The state is the record of the questions so far,
each with the state that it found, together with the state now. Before the question is asked, the
others act as they see fit after such a record. -/
def amid (answer : (q : Question) → σ → Answer q × σ) (others : List (Question × σ) → σ → σ)
    (q : Question) (t : List (Question × σ) × σ) : Answer q × List (Question × σ) × σ :=
  let s := others t.1 t.2
  ((answer q s).1, t.1 ++ [(q, s)], (answer q s).2)

/-- If the others do nothing, a dialogue is run as it is alone. -/
theorem run_amid_idle (answer : (q : Question) → σ → Answer q × σ) (d : Dialogue Question Answer α)
    (t : List (Question × σ) × σ) :
    (d.run (amid answer fun _ s => s) t).1 = (d.run answer t.2).1 ∧
      (d.run (amid answer fun _ s => s) t).2.2 = (d.run answer t.2).2 := by
  induction d generalizing t with
  | done a => exact ⟨rfl, rfl⟩
  | ask q next ih => exact ih (answer q t.2).1 (amid answer (fun _ s => s) q t).2

end Dialogue

end NodeLending
