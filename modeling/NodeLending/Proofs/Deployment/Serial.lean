import NodeLending.Proofs.Deployment.Proceed
import NodeLending.Proofs.Pass.Race

/-!
# Passes one at a time

A pass waits for its fetch, and much may happen meanwhile: reservations come and go, requests
arrive, the repository changes, the pool forgets everything, and other passes are asked for. Since
the pass reads nothing before its fetch has ended, all of this might as well have happened before
the pass began. A pass that is asked for meanwhile is refused, or it waits and might as well have
been asked for afterwards.

So a deployment with a pass under way is, at each moment, the deployment in which that pass has not
been asked for, but for the begin of the fetch and the count of passes that wait.

## Main definitions

* `Deployment.held`: a deployment in which a pass has been held in its fetch.
* `Deployment.results`: what those who cause events get to see.
* `Deployment.land`: the fetch that is under way ends, and brings something.

## Main results

* `Deployment.step_held`: what else happens does not notice the pass.
* `Deployment.after_held`, `Deployment.results_held`: nor do runs.
* `Deployment.land_after_start`: passes happen one at a time.
-/

namespace NodeLending

/-! ### Events -/

namespace Event

instance : DecidablePred IsPass
  | run | tryRun | start | deliver => .isTrue trivial
  | publish _ | patch _ _ | cutOff _ | reset | setFailing _ | setFault _ _ _ | call _ | enqueue _ _
  | maintain | cycle | complete _ | prune | report _ _ _ | request _ _ => .isFalse id

/-- Whether the event asks for a pass that waits for its turn. -/
def mayWait : Event → Bool
  | run | start => true
  | _ => false

theorem mayWait_eq_false {e : Event} (he : ¬e.IsPass) : e.mayWait = false := by
  cases e <;> first | rfl | exact absurd trivial he

end Event

namespace Deployment

/-- What those who cause events get to see, event by event. -/
def results (d : Deployment) : List Event → List ((e : Event) × e.Result)
  | [] => []
  | e :: events => ⟨e, (d.step e).1⟩ :: (d.step e).2.results events

/-! ### A pass under way -/

/-- The deployment, except that a pass is held in its fetch and a number of others wait. -/
def held (d : Deployment) (waiting : Nat) : Deployment :=
  { d with hosting := d.hosting.beginFetch, flight := .fetching waiting }

variable {d : Deployment} {location : String} {waiting : Nat}

theorem start_eq (hrepository : d.orchestrator.repository = some location)
    (hidle : d.flight = .idle) : d.start = (none, d.held 0) := by
  rw [start, hidle]
  simp only [hrepository]
  rfl

theorem orchestrator_held : (d.held waiting).orchestrator = d.orchestrator := rfl

theorem withLedger_held (ledger : Ledger) :
    (d.held waiting).withLedger ledger = (d.withLedger ledger).held waiting := rfl

/-- What else happens does not notice that a pass is held. -/
theorem step_held {e : Event} (he : ¬e.IsPass) (d : Deployment) (waiting : Nat) :
    (d.held waiting).step e = ((d.step e).1, (d.step e).2.held waiting) := by
  cases e with
  | run | tryRun | start | deliver => exact absurd trivial he
  | cycle =>
    change ((), (d.held waiting).cycle) = ((), d.cycle.held waiting)
    rw [cycle, cycle]
    change ((), if d.pool.activated then _ else _) = _
    split <;> rfl
  | request r now =>
    rw [step_request, step_request, orchestrator_held, withLedger_held]
    rfl
  | _ => rfl

/-- A pass that must not wait is refused, and one that may wait is counted. -/
theorem step_held_of_isPass {e : Event} (he : e.IsPass) (hdeliver : e ≠ .deliver)
    (d : Deployment) (waiting : Nat) :
    ((d.held waiting).step e).2 = d.held (waiting + if e.mayWait then 1 else 0) := by
  cases e with
  | run | tryRun | start => rfl
  | deliver => exact absurd rfl hdeliver
  | _ => exact absurd he id

/-- A run does not notice that a pass is held, except for the passes that it asks for. -/
theorem after_held {events : List Event} (hdeliver : .deliver ∉ events) (d : Deployment)
    (waiting : Nat) :
    (d.held waiting).after events =
      (d.after (events.filter fun e => ¬e.IsPass)).held
        (waiting + events.countP Event.mayWait) := by
  induction events generalizing d waiting with
  | nil => rfl
  | cons e events ih =>
    rw [List.mem_cons, not_or] at hdeliver
    obtain ⟨hne, hrest⟩ := hdeliver
    have hcount : waiting + (e :: events).countP Event.mayWait =
        (waiting + if e.mayWait then 1 else 0) + events.countP Event.mayWait := by
      rw [List.countP_cons]
      omega
    change ((d.held waiting).step e).2.after events = _
    rw [hcount]
    by_cases he : e.IsPass
    · rw [step_held_of_isPass he (Ne.symm hne), ih hrest,
        List.filter_cons_of_neg (by simpa using he)]
    · rw [step_held he, ih hrest, List.filter_cons_of_pos (by simpa using he),
        Event.mayWait_eq_false he]
      rfl

/-- Nor do those who cause the other events notice it. -/
theorem results_held {events : List Event} (hdeliver : .deliver ∉ events) (d : Deployment)
    (waiting : Nat) :
    ((d.held waiting).results events).filter (fun x => ¬x.1.IsPass) =
      d.results (events.filter fun e => ¬e.IsPass) := by
  induction events generalizing d waiting with
  | nil => rfl
  | cons e events ih =>
    rw [List.mem_cons, not_or] at hdeliver
    obtain ⟨hne, hrest⟩ := hdeliver
    rw [results]
    by_cases he : e.IsPass
    · rw [List.filter_cons_of_neg (by simpa using he), List.filter_cons_of_neg (by simpa using he),
        step_held_of_isPass he (Ne.symm hne), ih hrest]
    · rw [List.filter_cons_of_pos (by simpa using he), List.filter_cons_of_pos (by simpa using he),
        step_held he, ih hrest, results]

/-! ### The end of the fetch -/

/-- A pass that fetches this, with nothing else happening during it. -/
def passOver (d : Deployment) (fetched : Except FetchError FileTree) : PassResult × Deployment :=
  { d with hosting := d.hosting.beginFetch }.proceed (some fetched)

/-- The fetch that is under way ends and brings this. Its pass goes on, and those that have been
waiting follow. -/
def land (d : Deployment) (fetched : Except FetchError FileTree) : List PassResult × Deployment :=
  match d.flight with
  | .fetching waiting =>
    let (first, d) := { d with flight := .idle }.proceed (some fetched)
    let (others, d) := d.passes waiting
    (first :: others, d)
  | .idle => ([], d)

/-- A fetch that brings what is hosted when it ends. -/
theorem deliver_eq (hrepository : d.orchestrator.repository = some location) :
    d.deliver = d.land (d.hosting.fetch location) := by
  rw [deliver, land]
  cases d.flight with
  | idle => rfl
  | fetching waiting =>
    simp only [hrepository]
    rfl

theorem pass_eq_passOver (hrepository : d.orchestrator.repository = some location) :
    d.pass = d.passOver (d.hosting.fetch location) := by
  rw [pass, hrepository]
  rfl

theorem land_held (hidle : d.flight = .idle) (fetched : Except FetchError FileTree) :
    (d.held waiting).land fetched = ((d.passOver fetched).1 ::
      ((d.passOver fetched).2.passes waiting).1, ((d.passOver fetched).2.passes waiting).2) := by
  have hheld : { d.held waiting with flight := .idle } =
      { d with hosting := d.hosting.beginFetch } := by
    rw [← hidle]
    rfl
  simp only [land, held] at hheld ⊢
  rw [hheld]
  rfl

/-- Other events begin and end no pass, and do not move the repository. -/
theorem step_of_not_isPass {e : Event} (he : ¬e.IsPass) (d : Deployment) :
    (d.step e).2.flight = d.flight ∧
      (d.step e).2.orchestrator.repository = d.orchestrator.repository := by
  cases e with
  | run | tryRun | start | deliver => exact absurd trivial he
  | cycle =>
    change d.cycle.flight = _ ∧ d.cycle.orchestrator.repository = _
    rw [cycle]
    split <;> exact ⟨rfl, rfl⟩
  | request r now =>
    obtain ⟨_, ledger, hstep⟩ := exists_step_request d r now
    rw [hstep]
    exact ⟨rfl, rfl⟩
  | _ => exact ⟨rfl, rfl⟩

theorem after_of_not_isPass {events : List Event} (he : ∀ e ∈ events, ¬e.IsPass)
    (d : Deployment) : (d.after events).flight = d.flight ∧
      (d.after events).orchestrator.repository = d.orchestrator.repository := by
  induction events generalizing d with
  | nil => exact ⟨rfl, rfl⟩
  | cons e events ih =>
    obtain ⟨hflight, hrepository⟩ := step_of_not_isPass (he e List.mem_cons_self) d
    obtain ⟨hflight', hrepository'⟩ :=
      ih (fun e he' => he e (List.mem_cons_of_mem _ he')) (d.step e).2
    exact ⟨hflight'.trans hflight, hrepository'.trans hrepository⟩

/-- **Passes happen one at a time.** A pass is held in its fetch while other things happen; then the
fetch ends and brings something. A pass that must not wait is refused meanwhile and changes nothing.
One that may wait is counted and changes nothing else. Whoever causes one of the other events gets
to see the same as without the passes. In the end, the results and the deployment are those of a run
in which the other events come first, a pass over what has been fetched follows, and then as many
passes as have been waiting. If the fetch brings what is hosted when it ends, the first of these
passes is one like the others. -/
theorem land_after_start (hrepository : d.orchestrator.repository = some location)
    (hidle : d.flight = .idle) {events : List Event} (hdeliver : .deliver ∉ events)
    (fetched : Except FetchError FileTree) :
    let meanwhile := fun l => d.start.2.after l
    let before := d.after (events.filter fun e => ¬e.IsPass)
    let waiting := events.countP Event.mayWait
    d.start.1 = none ∧
    (∀ l l', events = l ++ .tryRun :: l' →
      (meanwhile l).step .tryRun = (.error .inProgress, meanwhile l)) ∧
    (∀ l l', events = l ++ .run :: l' → (meanwhile l).step .run =
      (none, { meanwhile l with flight := .fetching (l.countP Event.mayWait + 1) })) ∧
    (d.start.2.results events).filter (fun x => ¬x.1.IsPass) =
      d.results (events.filter fun e => ¬e.IsPass) ∧
    (meanwhile events).land fetched =
      ((before.passOver fetched).1 :: ((before.passOver fetched).2.passes waiting).1,
        ((before.passOver fetched).2.passes waiting).2) ∧
    (meanwhile events).deliver = before.passes (waiting + 1) := by
  intro meanwhile before waiting
  have hmeanwhile : ∀ l, .deliver ∉ l → meanwhile l =
      (d.after (l.filter fun e => ¬e.IsPass)).held (l.countP Event.mayWait) := by
    intro l hl
    change d.start.2.after l = _
    rw [start_eq hrepository hidle, after_held hl, Nat.zero_add]
  have hnone : ∀ {l l' : List Event} {e : Event}, events = l ++ e :: l' → .deliver ∉ l := by
    rintro l l' e rfl hl
    exact hdeliver (List.mem_append_left _ hl)
  have hothers : ∀ e ∈ events.filter (fun e => ¬e.IsPass), ¬e.IsPass := fun e he => by
    simpa using (List.mem_filter.mp he).2
  obtain ⟨hflight, hrepository'⟩ := after_of_not_isPass hothers d
  have hland : ∀ fetched, (meanwhile events).land fetched =
      ((before.passOver fetched).1 :: ((before.passOver fetched).2.passes waiting).1,
        ((before.passOver fetched).2.passes waiting).2) := by
    intro fetched
    rw [hmeanwhile events hdeliver, land_held (hflight.trans hidle)]
  refine ⟨by rw [start_eq hrepository hidle], ?_, ?_, ?_, hland fetched, ?_⟩
  · intro l l' heq
    rw [hmeanwhile l (hnone heq)]
    rfl
  · intro l l' heq
    rw [hmeanwhile l (hnone heq)]
    rfl
  · rw [start_eq hrepository hidle]
    exact results_held hdeliver d 0
  · have hbefore : before.orchestrator.repository = some location := hrepository'.trans hrepository
    have hfetch : (meanwhile events).hosting.fetch location = before.hosting.fetch location := by
      rw [hmeanwhile events hdeliver]
      rfl
    have hheld : (meanwhile events).orchestrator.repository = some location := by
      rw [hmeanwhile events hdeliver]
      exact hbefore
    rw [deliver_eq hheld, hland, hfetch, ← pass_eq_passOver hbefore]
    rfl

/-- What happens while a pass is held: the pool forgets everything, another revision is published,
and passes are asked for. -/
def bustle : List Event :=
  [.tryRun, .enqueue Sample.party (.atom "a"), .run, .reset, .publish Sample.bareRevision,
    .maintain]

/-- The pass that has been held brings the node to the engine, and the one that has been waiting
follows the revision that has been published meanwhile. -/
theorem land_after_reset_and_publish :
    (((new (some "r") .empty).start.2.after bustle).land (.ok Sample.revision)).1 =
      [.ok { created := 1 }, .ok { removed := 1 }] := by
  have hdeliver : .deliver ∉ bustle := by simp [bustle]
  obtain ⟨-, -, -, -, hland, -⟩ :=
    land_after_start (d := new (some "r") .empty) rfl rfl hdeliver (.ok Sample.revision)
  have hcount : bustle.countP Event.mayWait = 1 := rfl
  rw [hland, hcount]
  simp only [passes]
  rw [pass_eq_passOver (show _ = some "r" from rfl)]
  change [_, ((Deployment.passOver _ (.ok Sample.bareRevision))).1] = _
  simp only [passOver, proceed, applied, act]
  rw [Pass.run_of_read Sample.read_bareRevision, Pass.run_of_read Sample.read_revision]
  decide

end Deployment

end NodeLending
