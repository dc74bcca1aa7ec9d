import NodeLending.Proofs.Deployment.Act

/-!
# How a pass goes on

All that a pass does before its fetch has ended is to begin the fetch. What it does afterwards
depends on what has been fetched and on the deployment as it is then, but neither on what is hosted
nor on the passes that are under way. So a pass that has been held in its fetch is described in the
same way as one that nothing happens during.

## Main definitions

* `Deployment.fetched`, `Deployment.begin`: what a fetch brings that ends now, and the begin of a
  fetch.
* `Deployment.proceed`: a pass goes on with what it has fetched.

## Main results

* `Deployment.pass_eq`: a pass begins its fetch and goes on with what that brings.
* `Deployment.proceed_arrange`: how a pass goes on does not depend on what is hosted.
-/

namespace NodeLending

/-- A revision that is not rejected has been fetched. -/
theorem Pass.exists_tree_of_read {f : Except FetchError FileTree} {s : Snapshot}
    (h : read f = .ok s) : ∃ tree, f = .ok tree ∧ Snapshot.read tree = .ok s := by
  cases f with
  | error e => cases h
  | ok tree =>
    rw [read] at h
    cases hread : Snapshot.read tree with
    | error e =>
      rw [hread] at h
      cases h
    | ok s' =>
      rw [hread] at h
      cases h
      exact ⟨tree, rfl, hread⟩

namespace Deployment

variable (d : Deployment)

/-- What a pass has to go on with if its fetch ends now. Without a repository this is nothing. -/
def fetched : Option (Except FetchError FileTree) :=
  d.orchestrator.repository.map d.hosting.fetch

/-- A pass begins its fetch, if there is a repository. -/
def begin : Deployment :=
  { d with hosting := if d.orchestrator.repository.isSome then d.hosting.beginFetch else d.hosting }

/-- A pass goes on with what it has fetched, or finds that there is no repository. -/
def proceed : Option (Except FetchError FileTree) → PassResult × Deployment
  | none => (.error .notConfigured, d.act .giveUp)
  | some fetched => ((d.applied fetched).1.1, d.act (.apply fetched))

theorem pass_eq : d.pass = d.begin.proceed d.fetched := by
  rw [pass, begin, fetched]
  cases d.orchestrator.repository <;> rfl

/-! ### How a pass comes out -/

variable {d} in
/-- A pass over a revision that cannot be had or is rejected makes no call and records its error. -/
theorem applied_of_read_error {f : Except FetchError FileTree} {e : PassError}
    (hread : Pass.read f = .error e) :
    d.applied f = ((.error e, Pass.reject d.pool e), d.machinery) := by
  rw [applied, Pass.run, hread]
  rfl

variable {d} in
/-- A pass over a revision that is not rejected publishes it. -/
theorem applied_of_read_ok {f : Except FetchError FileTree} {s : Snapshot}
    (hread : Pass.read f = .ok s) :
    ∃ p, (d.applied f).1 = (p.result, Pass.publish d.pool s p) := by
  refine ⟨((Pass.perform s d.inventory).run Machinery.answer d.machinery).1, ?_⟩
  rw [applied, Pass.run, hread]
  dsimp only
  rw [Dialogue.run_bind]
  rfl

/-! ### What a pass looks at -/

variable (fetched : Option (Except FetchError FileTree))

/-- How a pass goes on depends neither on what is hosted nor on the passes that are under way. -/
theorem proceed_arrange (hosting : Hosting) (flight : Flight) :
    { d with hosting, flight }.proceed fetched =
      ((d.proceed fetched).1, { (d.proceed fetched).2 with hosting, flight }) := by
  cases fetched <;> rfl

@[simp] theorem hosting_proceed : (d.proceed fetched).2.hosting = d.hosting := by
  cases fetched <;> rfl

@[simp] theorem repository_proceed :
    (d.proceed fetched).2.orchestrator.repository = d.orchestrator.repository := by
  cases fetched <;> rfl

/-- A pass does the same as if the fetch had begun before, but that it begins the fetch. -/
theorem pass_eq_proceed : d.pass =
    ((d.proceed d.fetched).1, { (d.proceed d.fetched).2 with hosting := d.begin.hosting }) := by
  rw [pass_eq]
  cases d.fetched <;> rfl

/-! ### Passes leave the repository alone -/

theorem fetch_begin (location : String) :
    d.begin.hosting.fetch location = d.hosting.fetch location := by
  rw [begin]
  split <;> rfl

theorem fetched_proceed : (d.proceed fetched).2.fetched = d.fetched := by
  rw [Deployment.fetched, repository_proceed, hosting_proceed, Deployment.fetched]

/-- The next pass fetches the same. -/
theorem fetched_pass : d.pass.2.fetched = d.fetched := by
  rw [pass_eq, fetched_proceed]
  exact congrArg (fun f => d.orchestrator.repository.map f) (funext d.fetch_begin)

end Deployment

end NodeLending
