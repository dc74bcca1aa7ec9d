import NodeLending.Proofs.Deployment.Serial

/-!
# Requests decide nothing

Requests of parties are answered from what the pool and the reservations are, and all that they can
leave behind is a report in the ledger. Nothing but requests reads the ledger. So a run with its
requests and the same run without them bind the same reservations, give passes the same results and
go through the same states, except for the ledger.

## Main definitions

* `Event.isRequest`, `Event.isReport`: the events that the ledger has to do with.
* `Deployment.amended`, `Orchestrator.Aside`: changes of the orchestrator that have nothing to do
  with passes.

## Main results

* `Deployment.step_amended`: passes do not notice such a change.
* `Deployment.step_withLedger`: other events do not notice the ledger.
* `Deployment.after_withLedger`, `Deployment.results_withLedger`: runs do not notice the requests.
-/

namespace NodeLending

namespace Event

/-- Whether the event is a request. -/
def isRequest : Event → Bool
  | request _ _ => true
  | _ => false

/-- Whether a party reports its demand by the event, past the protocol. -/
def isReport : Event → Bool
  | report _ _ _ => true
  | _ => false

end Event

/-! ### Passes -/

/-- The change has nothing to do with passes: it keeps the repository and the pool, and it does not
matter whether the pool is replaced before or after it. -/
structure Orchestrator.Aside (f : Orchestrator → Orchestrator) : Prop where
  /-- The repository stays. -/
  repository : ∀ o, (f o).repository = o.repository
  /-- The pool stays. -/
  pool : ∀ o, (f o).pool = o.pool
  /-- The pool may be replaced before or after. -/
  withPool : ∀ o pool, { f o with pool } = f { o with pool }

namespace Deployment

/-- The deployment with something changed about the orchestrator. -/
def amended (d : Deployment) (f : Orchestrator → Orchestrator) : Deployment :=
  { d with orchestrator := f d.orchestrator }

section Passes

variable {f : Orchestrator → Orchestrator}

theorem flight_amended (d : Deployment) : (d.amended f).flight = d.flight := rfl

theorem idle_amended (d : Deployment) : { d.amended f with flight := .idle } =
    ({ d with flight := .idle } : Deployment).amended f := rfl

variable (hf : Orchestrator.Aside f) (d : Deployment)

include hf

theorem repository_amended : (d.amended f).orchestrator.repository = d.orchestrator.repository :=
  hf.repository d.orchestrator

theorem pool_amended : (d.amended f).pool = d.pool := hf.pool d.orchestrator

theorem withPool_amended (pool : Pool) :
    (d.amended f).withPool pool = (d.withPool pool).amended f :=
  congrArg (fun orchestrator => { d with orchestrator }) (hf.withPool d.orchestrator pool)

theorem finish_amended (location : String) :
    (d.amended f).finish location =
      ((d.finish location).1, (d.finish location).2.amended f) := by
  simp only [finish, pool_amended hf]
  exact Prod.ext rfl (withPool_amended hf (d.carryOut _).2 _)

theorem pass_amended : (d.amended f).pass = (d.pass.1, d.pass.2.amended f) := by
  rw [pass, pass, repository_amended hf]
  cases d.orchestrator.repository with
  | none => exact Prod.ext rfl (by rw [pool_amended hf, withPool_amended hf])
  | some location => exact finish_amended hf { d with hosting := d.hosting.beginFetch } location

theorem passes_amended (n : Nat) :
    (d.amended f).passes n = ((d.passes n).1, (d.passes n).2.amended f) := by
  induction n generalizing d with
  | zero => rfl
  | succ n ih => simp only [passes, pass_amended hf, ih]

theorem run_amended : (d.amended f).run = (d.run.1, d.run.2.amended f) := by
  rw [run, run, flight_amended]
  cases d.flight with
  | idle => simp only [pass_amended hf]
  | fetching waiting => rfl

theorem tryRun_amended : (d.amended f).tryRun = (d.tryRun.1, d.tryRun.2.amended f) := by
  rw [tryRun, tryRun, flight_amended]
  cases d.flight with
  | idle => exact pass_amended hf d
  | fetching waiting => rfl

theorem start_amended : (d.amended f).start = (d.start.1, d.start.2.amended f) := by
  rw [start, start, repository_amended hf, flight_amended]
  cases d.flight with
  | idle =>
    cases d.orchestrator.repository with
    | none => simp only [pass_amended hf]
    | some location => rfl
  | fetching waiting => rfl

theorem deliver_amended : (d.amended f).deliver = (d.deliver.1, d.deliver.2.amended f) := by
  rw [deliver, deliver, repository_amended hf, flight_amended]
  cases d.flight with
  | idle => rfl
  | fetching waiting =>
    cases d.orchestrator.repository with
    | none => rfl
    | some location =>
      simp only [idle_amended, finish_amended hf, passes_amended hf]

/-- Passes do not notice the change. -/
theorem step_amended {e : Event} (he : e.IsPass) :
    (d.amended f).step e = ((d.step e).1, (d.step e).2.amended f) := by
  cases e with
  | run => exact run_amended hf d
  | tryRun => exact tryRun_amended hf d
  | start => exact start_amended hf d
  | deliver => exact deliver_amended hf d
  | _ => exact absurd he id

end Passes

/-! ### Events -/

variable {d : Deployment} {ledger : Ledger} {e : Event}

theorem aside_ledger (ledger : Ledger) :
    Orchestrator.Aside fun o => { o with ledger } :=
  ⟨fun _ => rfl, fun _ => rfl, fun _ _ => rfl⟩

/-- Other events do not notice the ledger. -/
theorem step_withLedger (hrequest : e.isRequest = false) (hreport : e.isReport = false) :
    (d.withLedger ledger).step e = ((d.step e).1, (d.step e).2.withLedger ledger) := by
  cases e with
  | run | tryRun | start | deliver => exact step_amended (aside_ledger ledger) d trivial
  | cycle =>
    change ((), (d.withLedger ledger).cycle) = ((), d.cycle.withLedger ledger)
    rw [cycle, cycle]
    change ((), if d.pool.activated then _ else _) = _
    split <;> rfl
  | report => cases hreport
  | request => cases hrequest
  | _ => rfl

/-- Other events leave the ledger alone. -/
theorem ledger_step (hrequest : e.isRequest = false) (hreport : e.isReport = false) :
    (d.step e).2.orchestrator.ledger = d.orchestrator.ledger := by
  have hsame : (d.withLedger d.orchestrator.ledger).step e = _ := step_withLedger hrequest hreport
  exact congrArg (fun x => x.2.orchestrator.ledger) hsame

/-- A report does not notice what has been reported before. -/
theorem exists_step_withLedger (hrequest : e.isRequest = false) (ledger : Ledger) :
    ∃ ledger', (d.withLedger ledger).step e = ((d.step e).1, (d.step e).2.withLedger ledger') := by
  cases hreport : e.isReport with
  | false => exact ⟨ledger, step_withLedger hrequest hreport⟩
  | true =>
    cases e with
    | report party items now => exact ⟨ledger.record party items now, rfl⟩
    | _ => cases hreport

/-- A request changes nothing but the ledger. -/
theorem exists_step_of_isRequest (hrequest : e.isRequest = true) (d : Deployment) :
    ∃ ledger, (d.step e).2 = d.withLedger ledger := by
  cases e with
  | request r now =>
    obtain ⟨_, ledger, hstep⟩ := exists_step_request d r now
    exact ⟨ledger, congrArg Prod.snd hstep⟩
  | _ => cases hrequest

/-! ### Runs -/

/-- The state after a run is that after the run without its requests, except for the ledger. -/
theorem after_withLedger (events : List Event) (d : Deployment) (ledger : Ledger) :
    ∃ ledger', (d.withLedger ledger).after events =
      (d.after (events.filter fun e => !e.isRequest)).withLedger ledger' := by
  induction events generalizing d ledger with
  | nil => exact ⟨ledger, rfl⟩
  | cons e events ih =>
    change ∃ ledger', ((d.withLedger ledger).step e).2.after events = _
    cases he : e.isRequest with
    | true =>
      obtain ⟨ledger₁, hstep⟩ := exists_step_of_isRequest he (d.withLedger ledger)
      rw [hstep, List.filter_cons_of_neg (by simp [he])]
      exact ih d ledger₁
    | false =>
      obtain ⟨ledger₁, hstep⟩ := exists_step_withLedger (d := d) he ledger
      rw [hstep, List.filter_cons_of_pos (by simp [he])]
      exact ih (d.step e).2 ledger₁

/-- Those who cause other events get to see the same as without the requests. -/
theorem results_withLedger (events : List Event) (d : Deployment) (ledger : Ledger) :
    ((d.withLedger ledger).results events).filter (fun x => !x.1.isRequest) =
      d.results (events.filter fun e => !e.isRequest) := by
  induction events generalizing d ledger with
  | nil => rfl
  | cons e events ih =>
    rw [results]
    cases he : e.isRequest with
    | true =>
      obtain ⟨ledger₁, hstep⟩ := exists_step_of_isRequest he (d.withLedger ledger)
      rw [List.filter_cons_of_neg (by simp [he]), List.filter_cons_of_neg (by simp [he]), hstep]
      exact ih d ledger₁
    | false =>
      obtain ⟨ledger₁, hstep⟩ := exists_step_withLedger (d := d) he ledger
      rw [List.filter_cons_of_pos (by simp [he]), List.filter_cons_of_pos (by simp [he]), hstep,
        ih (d.step e).2 ledger₁, results]

end Deployment

end NodeLending
