import NodeLending.Proofs.Deployment.Proceed
import NodeLending.Proofs.Pool.Mirror
import NodeLending.Proofs.Repository.Flaw

/-!
# Passes that come to nothing

A pass comes to nothing if there is no repository, if the repository cannot be fetched, or if the
revision has a flaw. It then ends before it has looked at the nodes and made a call. All that is
left of it is its error, which the pool shows.

## Main definitions

* `Pass.Dismissal`: the reasons for which a pass comes to nothing.
* `PassError.IsEarly`: the errors of such passes.

## Main results

* `Deployment.proceed_of_dismissal`: a pass comes to nothing if there is a reason.
* `Deployment.proceed_of_isEarly`: it comes to nothing only then, and leaves its error.
* `Deployment.early_failure`: both for the passes of a deployment.
-/

namespace NodeLending

open Repository (Flaw)

/-- Why a pass comes to nothing that has this to go on with, and the error that it ends with. -/
inductive Pass.Dismissal : Option (Except FetchError FileTree) → PassError → Prop
  /-- There is no repository. -/
  | notConfigured : Dismissal none .notConfigured
  /-- The repository cannot be fetched. -/
  | fetch (e : FetchError) : Dismissal (some (.error e)) (.fetch e)
  /-- The revision has a flaw. -/
  | config {tree : FileTree} {e : ConfigError} (h : Flaw tree e) :
    Dismissal (some (.ok tree)) (.config e)

/-- A pass with this error has ended before it made a call. -/
def PassError.IsEarly : PassError → Prop
  | .notConfigured | .config _ | .fetch _ => True
  | .inProgress | .apply _ _ => False

namespace Pass

variable {f : Except FetchError FileTree} {e : PassError}

theorem Dismissal.isEarly {fetched : Option (Except FetchError FileTree)}
    (h : Dismissal fetched e) : e.IsEarly := by
  cases h <;> trivial

/-- What is not read is dismissed. -/
theorem dismissal_of_read (h : read f = .error e) : Dismissal (some f) e := by
  cases f with
  | error err =>
    cases h
    exact .fetch err
  | ok tree =>
    rw [read] at h
    cases htree : Snapshot.read tree with
    | error err =>
      rw [htree] at h
      cases h
      exact .config (Repository.flaw_of_read htree)
    | ok s =>
      rw [htree] at h
      cases h

/-- What is dismissed is not read. -/
theorem Dismissal.exists_read (h : Dismissal (some f) e) : ∃ e', read f = .error e' := by
  cases h with
  | fetch err => exact ⟨.fetch err, rfl⟩
  | config hflaw =>
    obtain ⟨err, htree⟩ := Repository.exists_flaw_iff.mp ⟨_, hflaw⟩
    exact ⟨.config err, by rw [read, htree]; rfl⟩

/-- A pass that carries out changes does not fail early. -/
theorem result_ne_of_isEarly (he : e.IsEarly) (p : Progress) : p.result ≠ .error e := by
  intro h
  rw [Progress.result] at h
  split at h
  · cases h
  · cases h
    exact he

end Pass

namespace Deployment

open Pass (Dismissal)

variable {d : Deployment} {fetched : Option (Except FetchError FileTree)} {e : PassError}

/-- A pass with a reason to come to nothing leaves an error. -/
theorem proceed_of_dismissal (h : Dismissal fetched e) :
    ∃ e', Dismissal fetched e' ∧
      d.proceed fetched = (.error e', d.withPool (Pass.reject d.pool e')) := by
  cases fetched with
  | none => exact ⟨.notConfigured, .notConfigured, rfl⟩
  | some f =>
    obtain ⟨e', hread⟩ := h.exists_read
    refine ⟨e', Pass.dismissal_of_read hread, ?_⟩
    rw [proceed, act, applied_of_read_error hread]
    rfl

/-- A pass that fails early had a reason, and leaves its error only. -/
theorem proceed_of_isEarly (he : e.IsEarly) (h : (d.proceed fetched).1 = .error e) :
    Dismissal fetched e ∧ (d.proceed fetched).2 = d.withPool (Pass.reject d.pool e) := by
  have hreason : ∃ e₁, Dismissal fetched e₁ := by
    cases fetched with
    | none => exact ⟨_, .notConfigured⟩
    | some f =>
      cases hread : Pass.read f with
      | error e₁ => exact ⟨e₁, Pass.dismissal_of_read hread⟩
      | ok s =>
        obtain ⟨p, hp⟩ := applied_of_read_ok (d := d) hread
        rw [proceed, hp] at h
        exact absurd h (Pass.result_ne_of_isEarly he p)
  obtain ⟨e₁, hreason⟩ := hreason
  obtain ⟨e', hdismissal, heq⟩ := proceed_of_dismissal (d := d) hreason
  rw [heq] at h ⊢
  cases h
  exact ⟨hdismissal, rfl⟩

/-- **A pass that fails early leaves nothing but its error.** Look at a pass that nothing happens
during, or at one that has been held and whose fetch ends now. It fails before it makes a call
exactly if there is no repository, the repository cannot be fetched, or the revision has a flaw
somewhere. Its error names such a reason. The pool shows this error from then on, and all else is
as it was: the view, whether the pool has been activated, the reservations, the reported demand, and
the engine with all it holds. -/
theorem early_failure {x : PassResult × Deployment}
    (hx : x = d.pass ∨
      ∃ location, d.orchestrator.repository = some location ∧ x = d.finish location) :
    ((∃ e : PassError, e.IsEarly ∧ x.1 = .error e) ↔ ∃ e, Dismissal d.fetched e) ∧
    ∀ e : PassError, e.IsEarly → x.1 = .error e →
      Dismissal d.fetched e ∧
      x.2.orchestrator = { d.orchestrator with pool := { d.pool with error := some e } } ∧
      x.2.machinery = d.machinery := by
  obtain ⟨d', hpool, hmachinery, hproceed⟩ : ∃ d' : Deployment, d'.orchestrator = d.orchestrator ∧
      d'.machinery = d.machinery ∧ x = d'.proceed d.fetched := by
    rcases hx with rfl | ⟨location, hrepository, rfl⟩
    · exact ⟨d.begin, rfl, rfl, d.pass_eq⟩
    · refine ⟨d, rfl, rfl, ?_⟩
      rw [fetched, hrepository]
      rfl
  rw [hproceed]
  refine ⟨⟨?_, ?_⟩, ?_⟩
  · rintro ⟨e, he, h⟩
    exact ⟨e, (proceed_of_isEarly he h).1⟩
  · rintro ⟨e, h⟩
    obtain ⟨e', hdismissal, heq⟩ := proceed_of_dismissal (d := d') h
    exact ⟨e', hdismissal.isEarly, by rw [heq]⟩
  · intro e he h
    obtain ⟨hdismissal, heq⟩ := proceed_of_isEarly he h
    refine ⟨hdismissal, ?_, by rw [heq]; exact hmachinery⟩
    rw [heq]
    change { d'.orchestrator with pool := d'.orchestrator.pool.setError (some e) } = _
    rw [hpool]
    rfl

end Deployment

namespace Sample

/-- A revision with a good manifest of a node, and after it one whose name is none. -/
def flawedRevision : FileTree :=
  .ofList [("config", "orchestrator.url=o"), ("nodes/n1.toml", "labels='a'"),
    ("nodes/o .toml", "labels='a'")]

theorem parse?_blank : Name.parse? .node "o " = .error (.surroundingBlank "o ") :=
  Name.parse?_eq_error_iff.mpr (by decide)

theorem readNode_blank (content : String) :
    Snapshot.readNode "o " "nodes/o .toml" content =
      .error (.nodeName "nodes/o .toml" (.surroundingBlank "o ")) := by
  rw [Snapshot.readNode, parse?_blank]
  rfl

set_option maxRecDepth 8000 in
theorem read_flawedRevision : Snapshot.read flawedRevision =
    .error (.nodeName "nodes/o .toml" (.surroundingBlank "o ")) := by
  have hconfig : Snapshot.readConfig flawedRevision = .ok snapshot.config := by decide
  have hparties : Snapshot.manifests flawedRevision Repository.partiesDirectory = [] := by decide
  have hnodes : Snapshot.manifests flawedRevision Repository.nodesDirectory =
      [("n1", "nodes/n1.toml", "labels='a'"), ("o ", "nodes/o .toml", "labels='a'")] := by decide
  simp only [Snapshot.read, hconfig, hparties, hnodes, List.foldlM_nil, List.foldlM_cons,
    Snapshot.addNode, readNode_node, readNode_blank]
  rfl

/-- The node is in use, and the other revision has been published. -/
def lent : Deployment where
  orchestrator := { Orchestrator.new (some "r") with pool := ⟨view, true, none⟩ }
  machinery := ⟨⟨.ofList [(node, ⟨handle, definition, some ⟨1⟩⟩)], 2, false⟩, fun _ _ => none⟩
  hosting := .new flawedRevision
  flight := .idle

end Sample

namespace Deployment

/-- The node stays with the party that uses it. -/
theorem early_failure_of_used_node :
    Sample.lent.pass.2.inventory = Sample.view.inventory ∧
      Sample.lent.pass.2.machinery.engine.occupant? Sample.node = some ⟨1⟩ := by
  have hread : Pass.read (.ok Sample.flawedRevision) =
      .error (.config (.nodeName "nodes/o .toml" (.surroundingBlank "o "))) := by
    rw [Pass.read, Sample.read_flawedRevision]
    rfl
  have hfetched : Sample.lent.fetched = some (.ok Sample.flawedRevision) := rfl
  have hfailed : Sample.lent.pass.1 =
      .error (.config (.nodeName "nodes/o .toml" (.surroundingBlank "o "))) := by
    rw [pass_eq, hfetched, proceed, applied_of_read_error hread]
  obtain ⟨-, hframe⟩ := early_failure (d := Sample.lent) (.inl rfl)
  obtain ⟨-, hpool, hmachinery⟩ := hframe _ (by trivial) hfailed
  rw [hmachinery, inventory, pool, hpool]
  exact ⟨rfl, by decide⟩

end Deployment

end NodeLending
