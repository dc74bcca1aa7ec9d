import NodeLending.Proofs.Pass.Dismissal

/-!
# The status of a pool

A pool shows the revision that it follows, whether it has ever followed one, and how the last pass
failed. The three are kept apart and written at different ends of a pass. A pass over a revision
that is rejected writes the last one only, and a pass that could not bring all nodes in line writes
all of them. Yet they always come to one status, which can be read off the passes that have ended
since the last reset.

## Main definitions

* `EndedPass`: a pass that has ended, with what it had fetched.
* `Deployment.ended`, `Deployment.memory`: the passes that end at an event, and those that have
  ended since the last reset.
* `Pool.Reflects`: the status that is read off these passes.

## Main results

* `Pool.Reflects.proceed`: a pass adds itself to what the pool reflects.
* `Deployment.status_after`: the status after a run of events.
-/

namespace NodeLending

/-! ### Passes that have ended -/

/-- A pass that has ended. -/
structure EndedPass where
  /-- What it had to go on with; nothing, if there is no repository. -/
  fetched : Option (Except FetchError FileTree)
  /-- How it ended. -/
  result : PassResult

namespace EndedPass

/-- The revision that the pass followed, if it had fetched one and did not reject it. -/
def snapshot? (p : EndedPass) : Option Snapshot := p.fetched.bind fun f => (Pass.read f).toOption

/-- Why the pass failed. -/
def error? (p : EndedPass) : Option PassError :=
  match p.result with
  | .ok _ => none
  | .error e => some e

end EndedPass

/-- A pass that is refused has not ended, since it has not begun. -/
def PassResult.ended : PassResult → List PassResult
  | .error .inProgress => []
  | result => [result]

/-- The results of the passes that end at an event. -/
def Event.ended : (e : Event) → e.Result → List PassResult
  | run, result | start, result => Option.toList result
  | tryRun, result => PassResult.ended result
  | deliver, results => results
  | _, _ => []

namespace Deployment

/-- The passes that end at an event. -/
def ended (d : Deployment) (e : Event) : List EndedPass :=
  (e.ended (d.step e).1).map fun result => ⟨d.fetched, result⟩

/-- The passes that have ended since the last reset, after one more event. -/
def remember (d : Deployment) (past : List EndedPass) : Event → List EndedPass
  | .reset => []
  | e => past ++ d.ended e

/-- The passes that have ended since the last reset, after a run of events. -/
def memory (d : Deployment) (past : List EndedPass) : List Event → List EndedPass
  | [] => past
  | e :: events => (d.step e).2.memory (d.remember past e) events

/-- A pass that has begun is not refused. -/
theorem ended_proceed (d : Deployment) (fetched : Option (Except FetchError FileTree)) :
    PassResult.ended (d.proceed fetched).1 = [(d.proceed fetched).1] := by
  cases fetched with
  | none => rfl
  | some f =>
    cases hread : Pass.read f with
    | error e =>
      have hearly := (Pass.dismissal_of_read hread).isEarly
      rw [proceed, applied_of_read_error hread]
      cases e with
      | inProgress => exact hearly.elim
      | _ => rfl
    | ok s =>
      obtain ⟨p, hp⟩ := applied_of_read_ok (d := d) hread
      rw [proceed, hp, Progress.result]
      cases p.failures <;> rfl

end Deployment

/-! ### The status -/

/-- The pool follows the last revision that a pass has followed, it has been activated if there is
one, and it shows why the last pass failed. -/
structure Pool.Reflects (pool : Pool) (past : List EndedPass) : Prop where
  snapshot : pool.view.snapshot = (past.filterMap EndedPass.snapshot?).getLast?
  activated : pool.activated = pool.view.snapshot.isSome
  error : pool.error = past.getLast?.bind EndedPass.error?

namespace Pool.Reflects

open Deployment

variable {d : Deployment} {pool : Pool} {past : List EndedPass}

theorem empty : Pool.empty.Reflects [] := ⟨rfl, rfl, rfl⟩

/-- A pass that has followed no revision leaves an error. -/
theorem reject (h : pool.Reflects past) {p : EndedPass} {e : PassError} (hp : p.snapshot? = none)
    (he : p.result = .error e) : (Pass.reject pool e).Reflects (past ++ [p]) where
  snapshot := by
    rw [List.filterMap_append, List.filterMap_cons_none hp, List.filterMap_nil, List.append_nil]
    exact h.snapshot
  activated := h.activated
  error := by
    rw [List.getLast?_concat, Option.bind_some, EndedPass.error?, he]
    rfl

/-- A pass that has followed a revision leaves the revision, and an error if it has failed. -/
theorem publish {p : EndedPass} {s : Snapshot} {x : Progress} (hp : p.snapshot? = some s)
    (hx : p.result = x.result) : (Pass.publish pool s x).Reflects (past ++ [p]) where
  snapshot := by
    rw [List.filterMap_append, List.filterMap_cons_some hp, List.filterMap_nil,
      List.getLast?_concat]
    rfl
  activated := rfl
  error := by
    rw [List.getLast?_concat, Option.bind_some, EndedPass.error?, hx]
    rfl

/-- A pass adds itself to what the pool reflects. -/
theorem proceed (h : d.pool.Reflects past) (fetched : Option (Except FetchError FileTree)) :
    (d.proceed fetched).2.pool.Reflects (past ++ [⟨fetched, (d.proceed fetched).1⟩]) := by
  cases fetched with
  | none => exact h.reject rfl rfl
  | some f =>
    change (d.applied f).1.2.Reflects (past ++ [⟨some f, (d.applied f).1.1⟩])
    cases hread : Pass.read f with
    | error e =>
      rw [applied_of_read_error hread]
      refine h.reject ?_ rfl
      rw [EndedPass.snapshot?, Option.bind_some, hread]
      rfl
    | ok s =>
      obtain ⟨p, hp⟩ := applied_of_read_ok (d := d) hread
      rw [hp]
      refine publish ?_ rfl
      rw [EndedPass.snapshot?, Option.bind_some, hread]
      rfl

theorem pass (h : d.pool.Reflects past) :
    d.pass.2.pool.Reflects (past ++ [⟨d.fetched, d.pass.1⟩]) := by
  rw [pass_eq]
  exact Reflects.proceed (d := d.begin) h d.fetched

theorem passes (h : d.pool.Reflects past) (n : Nat) :
    (d.passes n).2.pool.Reflects (past ++ (d.passes n).1.map (⟨d.fetched, ·⟩)) := by
  induction n generalizing d past with
  | zero =>
    rw [Deployment.passes, List.map_nil, List.append_nil]
    exact h
  | succ n ih =>
    have hrest := ih h.pass
    rw [fetched_pass, List.append_assoc] at hrest
    exact hrest

theorem deliver (h : d.pool.Reflects past) :
    d.deliver.2.pool.Reflects (past ++ d.deliver.1.map (⟨d.fetched, ·⟩)) := by
  rw [Deployment.deliver]
  split
  · next waiting location _ hrepository =>
    have hfetched : d.fetched = some (d.hosting.fetch location) := by
      rw [fetched, hrepository, Option.map_some]
    -- The pass that has been fetching goes on, and then those that have been waiting.
    have hfirst := Reflects.proceed (d := { d with flight := .idle }) h d.fetched
    have hrest := hfirst.passes waiting
    have hland : ({ d with flight := .idle } : Deployment).fetched = d.fetched := rfl
    rw [fetched_proceed, hland, List.append_assoc, hfetched] at hrest
    rw [hfetched]
    exact hrest
  · rwa [List.map_nil, List.append_nil]

/-- An event adds the passes that end at it. -/
theorem step (h : d.pool.Reflects past) (e : Event) :
    (d.step e).2.pool.Reflects (d.remember past e) := by
  have hnone : d.pool.Reflects (past ++ []) := by rwa [List.append_nil]
  cases e with
  | run =>
    change d.run.2.pool.Reflects (past ++ d.run.1.toList.map (⟨d.fetched, ·⟩))
    rw [run]
    cases d.flight with
    | idle => exact h.pass
    | fetching => exact hnone
  | tryRun =>
    change d.tryRun.2.pool.Reflects (past ++ (PassResult.ended d.tryRun.1).map (⟨d.fetched, ·⟩))
    rw [tryRun]
    cases d.flight with
    | idle =>
      have hended := ended_proceed d.begin d.fetched
      rw [← pass_eq] at hended
      dsimp only
      rw [hended]
      exact h.pass
    | fetching => exact hnone
  | start =>
    change d.start.2.pool.Reflects (past ++ d.start.1.toList.map (⟨d.fetched, ·⟩))
    rw [start]
    cases d.flight with
    | idle =>
      dsimp only
      cases hrepository : d.orchestrator.repository with
      | none => exact h.pass
      | some => exact hnone
    | fetching => exact hnone
  | deliver => exact h.deliver
  | reset => exact .empty
  | cycle =>
    change d.cycle.pool.Reflects (past ++ [])
    rw [cycle]
    split <;> exact hnone
  | request r now =>
    obtain ⟨_, ledger, hstep⟩ := exists_step_request d r now
    rw [hstep]
    exact hnone
  | _ => exact hnone

theorem after (h : d.pool.Reflects past) (events : List Event) :
    (d.after events).pool.Reflects (d.memory past events) := by
  induction events generalizing d past with
  | nil => exact h
  | cons e events ih => exact ih (h.step e)

/-- A pool that has been activated stays so when more passes end. -/
theorem activated_of_append {pool' : Pool} {more : List EndedPass} (h : pool.Reflects past)
    (h' : pool'.Reflects (past ++ more)) (hactivated : pool.activated = true) :
    pool'.activated = true := by
  rw [h.activated, h.snapshot, List.getLast?_isSome] at hactivated
  rw [h'.activated, h'.snapshot, List.getLast?_isSome, List.filterMap_append]
  exact List.append_ne_nil_of_left_ne_nil hactivated _

end Pool.Reflects

namespace Deployment

/-- **The status of a pool.** After every run of events, look at the passes that have ended since
the last reset. The pool follows the revision of the last one among them that has fetched a revision
and not rejected it, whether or not all nodes could be brought in line. The pool has been activated
exactly if there is such a revision, and only a reset takes that back. The error that it shows is
the one of the last pass. -/
theorem status_after (repository : Option String) (files : FileTree) (events : List Event) :
    let d := (new repository files).after events
    let past := (new repository files).memory [] events
    d.pool.view.snapshot = (past.filterMap EndedPass.snapshot?).getLast? ∧
    (d.pool.activated = true ↔ ∃ s, d.pool.view.snapshot = some s) ∧
    d.pool.error = past.getLast?.bind EndedPass.error? ∧
    ∀ e, e ≠ .reset → d.pool.activated = true → (d.step e).2.pool.activated = true := by
  intro d past
  have h : d.pool.Reflects past := Pool.Reflects.after (d := new repository files) .empty events
  refine ⟨h.snapshot, ?_, h.error, fun e he => ?_⟩
  · rw [h.activated, Option.isSome_iff_exists]
  · have hremember : ∃ more, d.remember past e = past ++ more := by
      cases e with
      | reset => exact absurd rfl he
      | _ => exact ⟨_, rfl⟩
    obtain ⟨more, hmore⟩ := hremember
    exact h.activated_of_append (hmore ▸ h.step e)

end Deployment

end NodeLending
