/-!
# Dialogues

A dialogue is an activity that asks something outside of it from time to time and goes on with the
answer. What is asked and who answers are kept apart: the same dialogue may be run against a store,
against a list of prepared answers, or with other things happening between two of its questions.

## Main definitions

* `Dialogue`: the activities, with their sequencing.
* `Dialogue.run`: a dialogue against something with a state.
* `Dialogue.transcript`: the questions that were asked, in order.

## Main results

* `Dialogue.run_bind`: a sequence is run one part after the other.
-/

namespace NodeLending

/-- An activity that asks questions, each with its own type of answers, and ends with a result. -/
inductive Dialogue (Question : Type) (Answer : Question → Type) (α : Type) where
  /-- The activity is over. -/
  | done (result : α)
  /-- Ask, and go on with the answer. -/
  | ask (q : Question) (next : Answer q → Dialogue Question Answer α)

namespace Dialogue

variable {Question : Type} {Answer : Question → Type} {α β σ : Type}

/-- One activity after another. -/
def bind (d : Dialogue Question Answer α) (f : α → Dialogue Question Answer β) :
    Dialogue Question Answer β :=
  match d with
  | done a => f a
  | ask q next => ask q fun a => (next a).bind f

instance : Monad (Dialogue Question Answer) where
  pure := done
  bind := bind

/-- Run a dialogue against something with a state. -/
def run (answer : (q : Question) → σ → Answer q × σ) (d : Dialogue Question Answer α) (s : σ) :
    α × σ :=
  match d with
  | done a => (a, s)
  | ask q next => ((next (answer q s).1).run answer (answer q s).2)

/-- The questions that a run asks, in order. -/
def transcript (answer : (q : Question) → σ → Answer q × σ) (d : Dialogue Question Answer α)
    (s : σ) : List Question :=
  match d with
  | done _ => []
  | ask q next => q :: (next (answer q s).1).transcript answer (answer q s).2

/-- A dialogue that is over changes nothing. -/
@[simp] theorem run_pure (answer : (q : Question) → σ → Answer q × σ) (a : α) (s : σ) :
    (pure a : Dialogue Question Answer α).run answer s = (a, s) := rfl

@[simp] theorem run_done (answer : (q : Question) → σ → Answer q × σ) (a : α) (s : σ) :
    (done a : Dialogue Question Answer α).run answer s = (a, s) := rfl

/-- A question is answered, and the answer is gone on with. -/
@[simp] theorem run_ask (answer : (q : Question) → σ → Answer q × σ) (q : Question)
    (next : Answer q → Dialogue Question Answer α) (s : σ) :
    (ask q next).run answer s = (next (answer q s).1).run answer (answer q s).2 := rfl

/-- A sequence is run one part after the other. -/
@[simp] theorem run_bind (answer : (q : Question) → σ → Answer q × σ)
    (d : Dialogue Question Answer α) (f : α → Dialogue Question Answer β) (s : σ) :
    (d >>= f).run answer s = (f (d.run answer s).1).run answer (d.run answer s).2 := by
  change (d.bind f).run answer s = _
  induction d generalizing s with
  | done a => rfl
  | ask q next ih => exact ih _ _

end Dialogue

end NodeLending
