import NodeLending.Proofs.Api.Path
import NodeLending.Proofs.Decode.Reading
import NodeLending.Proofs.Deployment.Act
import NodeLending.Proofs.Json.Bytes

/-!
# The handshake as a gate

A request to an endpoint passes a number of checks before anything is done with it. What they check
can be said of the orchestrator and the request alone, one condition at a time, without regard to
the order in which they are made. The handler of the endpoint runs when all conditions hold. If some
do not, the first of them in the order of the checks decides on the answer, and nothing is changed.

## Main definitions

* `Endpoint.Message`: the messages that endpoints take.
* `Api.Body.Carries`: a body is read as a message.
* `Api.handle`: what an endpoint does with a request that has passed all checks.
* `Api.Condition`: the conditions in the order of the checks.

## Main results

* `Api.respondAt_eq`: an endpoint does nothing but check a request and handle it.
* `Api.accept_of_holds`, `Api.accept_of_first`: what the checks come to.
* `Deployment.handshake_gate`: the handler runs exactly when all conditions hold.
-/

namespace NodeLending

/-- The messages that an endpoint takes. -/
def Endpoint.Message : Endpoint → Type
  | discover => DiscoverRequest
  | reportWorkload => ReportRequest
  | returnNode => ReturnRequest
  | nodeStatus => NodeStatusRequest
  | runStatus => RunStatusRequest

namespace Api

instance (e : Endpoint) : Json.Codec e.Message :=
  match e with
  | .discover => inferInstanceAs (Json.Codec DiscoverRequest)
  | .reportWorkload => inferInstanceAs (Json.Codec ReportRequest)
  | .returnNode => inferInstanceAs (Json.Codec ReturnRequest)
  | .nodeStatus => inferInstanceAs (Json.Codec NodeStatusRequest)
  | .runStatus => inferInstanceAs (Json.Codec RunStatusRequest)

instance (e : Endpoint) : Fingerprinted e.Message :=
  match e with
  | .discover => inferInstanceAs (Fingerprinted DiscoverRequest)
  | .reportWorkload => inferInstanceAs (Fingerprinted ReportRequest)
  | .returnNode => inferInstanceAs (Fingerprinted ReturnRequest)
  | .nodeStatus => inferInstanceAs (Fingerprinted NodeStatusRequest)
  | .runStatus => inferInstanceAs (Fingerprinted RunStatusRequest)

/-- What an endpoint does with a request that has passed all checks. -/
def handle (o : Orchestrator) (now : Moment) :
    (e : Endpoint) → Accepted e.Message → Except Problem (Response × Ledger)
  | .discover, a => .ok (.json 200 (Json.encode (discover o a)), o.ledger)
  | .reportWorkload, a => (report o now a).map fun x => (.json 200 (Json.encode x.1), x.2)
  | .returnNode, a => (giveBack o a).map fun _ => (.bare 200, o.ledger)
  | .nodeStatus, a => .ok (.json 200 (Json.encode (nodeStatus o a)), o.ledger)
  | .runStatus, a => .ok (.json 200 (Json.encode (runStatus o a)), o.ledger)

/-- An endpoint checks a request and then handles it, and does nothing else. -/
theorem respondAt_eq (o : Orchestrator) (now : Moment) (segment : String) (r : Request)
    (e : Endpoint) :
    respondAt o now segment r e = accept e.Message o segment r >>= handle o now e := by
  cases e with
  | discover | nodeStatus | runStatus => rfl
  | reportWorkload =>
    refine congrArg (accept ReportRequest o segment r >>= ·) (funext fun a => ?_)
    change _ = (report o now a).map _
    cases report o now a <;> rfl
  | returnNode =>
    refine congrArg (accept ReturnRequest o segment r >>= ·) (funext fun a => ?_)
    change _ = (giveBack o a).map _
    cases giveBack o a <;> rfl

/-! ### Bodies -/

namespace Body

/-- A body is read as a message: it is not too long, and its bytes are those of the message as
JSON. -/
structure Carries {α : Type} [Json.Codec α] (b : Body) (m : α) : Prop where
  /-- The body is not too long. -/
  length : b.bytes.length ≤ limit
  /-- Its bytes are read as the message. -/
  read : Json.readBytes b.bytes = .ok m

variable {α : Type} [Json.Codec α] {b : Body} {m m' : α}

theorem Carries.unique (h : b.Carries m) (h' : b.Carries m') : m = m' :=
  Except.ok.inj (h.read.symm.trans h'.read)

/-- The value of a body is the message that it is read as. -/
theorem decode_eq_ok_iff : b.decode α = .ok m ↔ b.Carries m := by
  rw [decode, fits]
  constructor
  · intro h
    split at h
    · next hfits => exact ⟨of_decide_eq_true hfits, mapError_eq_ok_iff.mp h⟩
    · cases h
  · rintro ⟨hlength, hread⟩
    rw [if_pos (decide_eq_true hlength), hread]
    rfl

theorem exists_decode_error (h : ∀ m : α, ¬b.Carries m) : ∃ detail, b.decode α = .error detail := by
  cases hdecode : b.decode α with
  | ok m => exact absurd (decode_eq_ok_iff.mp hdecode) (h m)
  | error detail => exact ⟨detail, rfl⟩

/-- A body with a text is read like the text. -/
theorem carries_ofText_iff {s : String} :
    (ofText s).Carries m ↔ (Text.utf8 s).length ≤ limit ∧ Json.read s = .ok m := by
  rw [← Json.readBytes_utf8]
  exact ⟨fun h => ⟨h.length, h.read⟩, fun h => ⟨h.1, h.2⟩⟩

end Body

/-! ### The conditions -/

/-- What is checked of a request to an endpoint. -/
inductive Condition where
  /-- The orchestrator has a repository. -/
  | configured
  /-- The namespace is that of the repository. -/
  | addressed
  /-- The pool follows a revision. -/
  | loaded
  /-- The body is a message that the endpoint takes. -/
  | readable
  /-- The sender speaks this version of the protocol. -/
  | version
  /-- The sender has been configured from the same repository. -/
  | repository
  /-- The sender is declared in the revision. -/
  | party
  deriving DecidableEq, Repr

namespace Condition

/-- The conditions in the order of the checks. -/
def all : List Condition := [configured, addressed, loaded, readable, version, repository, party]

/-- The conditions that are checked before. -/
def earlier (c : Condition) : List Condition := all.takeWhile (· ≠ c)

/-- The kind of the problem if the condition does not hold. -/
def kind : Condition → ProblemKind
  | configured | loaded => .unavailable
  | addressed | party => .notFound
  | readable => .badRequest
  | version | repository => .conflict

/-- The code of the problem if the condition does not hold. -/
def code : Condition → String
  | configured | loaded => "pool_inactive"
  | addressed => "unknown_namespace"
  | readable => "invalid_payload"
  | version | repository => "handshake_rejected"
  | party => "unknown_party"

/-- The condition holds of a request to an endpoint in a namespace with a body. -/
def Holds (o : Orchestrator) (ns : String) (e : Endpoint) (body : Body) : Condition → Prop
  | configured => o.repository ≠ none
  | addressed => ∃ repository, o.repository = some repository ∧
      ns = (Namespace.ofRepository repository).text
  | loaded => o.pool.view.snapshot ≠ none
  | readable => ∃ m : e.Message, body.Carries m
  | version => ∃ m : e.Message, body.Carries m ∧
      (Fingerprinted.fingerprint m).version = protocolVersion
  | repository => ∃ m : e.Message, body.Carries m ∧
      o.repository = some (Fingerprinted.fingerprint m).repository
  | party => ∃ (m : e.Message) (s : Snapshot), body.Carries m ∧
      o.pool.view.snapshot = some s ∧ s.parties.find? (Fingerprinted.fingerprint m).party ≠ none

theorem mem_all (c : Condition) : c ∈ all := by
  cases c <;> decide

/-- Of conditions that do not all hold there is a first one. -/
theorem exists_first {P : Condition → Prop} (h : ¬∀ c, P c) :
    ∃ c : Condition, ¬P c ∧ ∀ b ∈ c.earlier, P b := by
  have hfirst : ∀ l : List Condition, (∀ c ∈ l, P c) ∨
      ∃ c ∈ l, ¬P c ∧ ∀ b ∈ l.takeWhile (· ≠ c), P b := by
    intro l
    induction l with
    | nil => exact Or.inl fun c hc => nomatch hc
    | cons a l ih =>
      by_cases ha : P a
      · rcases ih with hall | ⟨c, hc, hne, hbefore⟩
        · exact Or.inl fun c hc => (List.mem_cons.mp hc).elim (· ▸ ha) (hall c)
        · refine Or.inr ⟨c, List.mem_cons_of_mem a hc, hne, fun b hb => ?_⟩
          have hac : a ≠ c := fun heq => hne (heq ▸ ha)
          rw [List.takeWhile_cons_of_pos (by simpa using hac)] at hb
          exact (List.mem_cons.mp hb).elim (· ▸ ha) (hbefore b)
      · refine Or.inr ⟨a, List.mem_cons_self, ha, fun b hb => ?_⟩
        rw [List.takeWhile_cons_of_neg (by simp)] at hb
        cases hb
  rcases hfirst all with hall | ⟨c, -, hc⟩
  · exact absurd (fun c => hall c c.mem_all) h
  · exact ⟨c, hc⟩

end Condition

/-! ### The checks -/

section Checks

variable {o : Orchestrator} {segment ns : String} {r : Request} {e : Endpoint}

/-- The checks of a message by a repository and a revision. -/
def checkMessage (repository : String) (s : Snapshot) (m : e.Message) :
    Except Problem (Accepted e.Message) := do
  ((Fingerprinted.fingerprint m).verify repository protocolVersion).mapError fun e =>
    ⟨.conflict, "handshake_rejected", e.message⟩
  let party ← senderOf s (Fingerprinted.fingerprint m)
  return ⟨party, s, m⟩

/-- A fingerprint of the same version and repository leaves only the party to be checked. -/
theorem checkMessage_of_same {repository : String} {m : e.Message} (s : Snapshot)
    (hversion : (Fingerprinted.fingerprint m).version = protocolVersion)
    (hrepository : o.repository = some repository)
    (hsame : o.repository = some (Fingerprinted.fingerprint m).repository) :
    checkMessage repository s m =
      (senderOf s (Fingerprinted.fingerprint m)).map fun p => ⟨p, s, m⟩ := by
  have hverify : (Fingerprinted.fingerprint m).verify repository protocolVersion = .ok () :=
    Fingerprint.verify_eq_ok_iff.mpr
      ⟨hversion, Option.some.inj (hsame.symm.trans hrepository)⟩
  rw [checkMessage, hverify]
  rfl

/-- The message of a request. -/
def readMessage (e : Endpoint) (r : Request) : Except Problem e.Message :=
  (r.body.decode e.Message).mapError (Problem.mk .badRequest "invalid_payload")

/-- The checks once the path has been read. -/
theorem accept_eq (hns : Route.namespace? segment = some ns)
    (hjson : r.contentType.any MediaType.isJsonText = true) :
    accept e.Message o segment r = repositoryOf o ns >>= fun repository =>
      revision o >>= fun s => readMessage e r >>= checkMessage repository s := by
  rw [accept, readNamespace, hns, decodeBody, if_pos hjson]
  rfl

section Addressed

variable {repository : String} (hns : Route.namespace? segment = some ns)
  (hjson : r.contentType.any MediaType.isJsonText = true)
  (hrepository : o.repository = some repository)
  (haddressed : ns = (Namespace.ofRepository repository).text)

include hns hjson hrepository haddressed

/-- The checks in the namespace of the repository. -/
theorem accept_of_addressed : accept e.Message o segment r =
    revision o >>= fun s => readMessage e r >>= checkMessage repository s := by
  rw [accept_eq hns hjson, repositoryOf, hrepository]
  simp only [if_pos haddressed]
  rfl

/-- The checks once the message has been read. -/
theorem accept_of_read {s : Snapshot} (hs : o.pool.view.snapshot = some s) {m : e.Message}
    (hm : r.body.Carries m) : accept e.Message o segment r = checkMessage repository s m := by
  rw [accept_of_addressed hns hjson hrepository haddressed, revision, hs, readMessage,
    Body.decode_eq_ok_iff.mpr hm]
  rfl

end Addressed

/-- A request for which all conditions hold passes the checks. -/
theorem accept_of_holds (hns : Route.namespace? segment = some ns)
    (hjson : r.contentType.any MediaType.isJsonText = true)
    (h : ∀ c : Condition, c.Holds o ns e r.body) :
    ∃ a : Accepted e.Message, accept e.Message o segment r = .ok a ∧
      r.body.Carries a.message ∧ o.pool.view.snapshot = some a.snapshot ∧
      a.snapshot.parties.find? (Fingerprinted.fingerprint a.message).party = some a.party := by
  obtain ⟨repository, hrepository, haddressed⟩ := h .addressed
  obtain ⟨m, hm, hversion⟩ := h .version
  obtain ⟨m', hm', hsame⟩ := h .repository
  obtain ⟨m'', s, hm'', hs, hdeclared⟩ := h .party
  cases hm.unique hm'
  cases hm.unique hm''
  obtain ⟨p, hp⟩ := Option.ne_none_iff_exists'.mp hdeclared
  refine ⟨⟨p, s, m⟩, ?_, hm, hs, hp⟩
  rw [accept_of_read hns hjson hrepository haddressed hs hm,
    checkMessage_of_same s hversion hrepository hsame, senderOf, hp]
  rfl

/-- Of the conditions that do not hold the first one decides on the problem. -/
theorem accept_of_first (hns : Route.namespace? segment = some ns)
    (hjson : r.contentType.any MediaType.isJsonText = true) {c : Condition}
    (hc : ¬c.Holds o ns e r.body) (hbefore : ∀ b ∈ c.earlier, b.Holds o ns e r.body) :
    ∃ detail, accept e.Message o segment r = .error ⟨c.kind, c.code, detail⟩ := by
  cases c with
  | configured =>
    have hnone : o.repository = none := Classical.not_not.mp hc
    rw [accept_eq hns hjson, repositoryOf, hnone]
    exact ⟨_, rfl⟩
  | addressed =>
    obtain ⟨repository, hrepository⟩ :=
      Option.ne_none_iff_exists'.mp (hbefore .configured (by decide))
    have hne : ns ≠ (Namespace.ofRepository repository).text :=
      fun heq => hc ⟨repository, hrepository, heq⟩
    rw [accept_eq hns hjson, repositoryOf, hrepository]
    simp only [if_neg hne]
    exact ⟨_, rfl⟩
  | loaded =>
    obtain ⟨repository, hrepository, haddressed⟩ := hbefore .addressed (by decide)
    have hnone : o.pool.view.snapshot = none := Classical.not_not.mp hc
    rw [accept_of_addressed hns hjson hrepository haddressed, revision, hnone]
    exact ⟨_, rfl⟩
  | readable =>
    obtain ⟨repository, hrepository, haddressed⟩ := hbefore .addressed (by decide)
    obtain ⟨s, hs⟩ := Option.ne_none_iff_exists'.mp (hbefore .loaded (by decide))
    rw [accept_of_addressed hns hjson hrepository haddressed, revision, hs, readMessage]
    obtain ⟨detail, hdetail⟩ := Body.exists_decode_error fun m hm => hc ⟨m, hm⟩
    rw [hdetail]
    exact ⟨_, rfl⟩
  | version =>
    obtain ⟨repository, hrepository, haddressed⟩ := hbefore .addressed (by decide)
    obtain ⟨s, hs⟩ := Option.ne_none_iff_exists'.mp (hbefore .loaded (by decide))
    obtain ⟨m, hm⟩ := hbefore .readable (by decide)
    have hversion : (Fingerprinted.fingerprint m).version ≠ protocolVersion :=
      fun heq => hc ⟨m, hm, heq⟩
    rw [accept_of_read hns hjson hrepository haddressed hs hm, checkMessage,
      Fingerprint.verify, if_pos hversion]
    exact ⟨_, rfl⟩
  | repository =>
    obtain ⟨repository, hrepository, haddressed⟩ := hbefore .addressed (by decide)
    obtain ⟨s, hs⟩ := Option.ne_none_iff_exists'.mp (hbefore .loaded (by decide))
    obtain ⟨m, hm, hversion⟩ := hbefore .version (by decide)
    have hother : (Fingerprinted.fingerprint m).repository ≠ repository :=
      fun heq => hc ⟨m, hm, heq ▸ hrepository⟩
    rw [accept_of_read hns hjson hrepository haddressed hs hm, checkMessage,
      Fingerprint.verify, if_neg (not_not_intro hversion), if_pos hother]
    exact ⟨_, rfl⟩
  | party =>
    obtain ⟨repository, hrepository, haddressed⟩ := hbefore .addressed (by decide)
    obtain ⟨s, hs⟩ := Option.ne_none_iff_exists'.mp (hbefore .loaded (by decide))
    obtain ⟨m, hm, hversion⟩ := hbefore .version (by decide)
    obtain ⟨m', hm', hsame⟩ := hbefore .repository (by decide)
    cases hm.unique hm'
    have hnone : s.parties.find? (Fingerprinted.fingerprint m).party = none :=
      Classical.not_not.mp fun hp => hc ⟨m, s, hm, hs, hp⟩
    rw [accept_of_read hns hjson hrepository haddressed hs hm,
      checkMessage_of_same s hversion hrepository hsame, senderOf, hnone]
    exact ⟨_, rfl⟩

/-- A request passes the checks exactly when all conditions hold. -/
theorem exists_accept_iff (hns : Route.namespace? segment = some ns)
    (hjson : r.contentType.any MediaType.isJsonText = true) :
    (∃ a, accept e.Message o segment r = .ok a) ↔ ∀ c : Condition, c.Holds o ns e r.body := by
  constructor
  · rintro ⟨a, ha⟩
    refine Classical.byContradiction fun hall => ?_
    obtain ⟨c, hc, hbefore⟩ := Condition.exists_first hall
    obtain ⟨detail, herror⟩ := accept_of_first hns hjson hc hbefore
    rw [ha] at herror
    cases herror
  · intro hall
    obtain ⟨a, ha, -⟩ := accept_of_holds hns hjson hall
    exact ⟨a, ha⟩

/-- What has passed the checks is the message of the request, with the revision that the pool follows
and the party that is declared there. -/
theorem facts_of_accept (hns : Route.namespace? segment = some ns)
    (hjson : r.contentType.any MediaType.isJsonText = true) {a : Accepted e.Message}
    (ha : accept e.Message o segment r = .ok a) :
    r.body.Carries a.message ∧ o.pool.view.snapshot = some a.snapshot ∧
      a.snapshot.parties.find? (Fingerprinted.fingerprint a.message).party = some a.party := by
  obtain ⟨a', ha', hfacts⟩ := accept_of_holds hns hjson ((exists_accept_iff hns hjson).mp ⟨a, ha⟩)
  rw [ha, Except.ok.injEq] at ha'
  exact ha' ▸ hfacts

end Checks

end Api

namespace Deployment

open Api (Route MediaType Condition)

variable {r : Api.Request} {segment ns : String} {e : Endpoint}

/-- A request to an endpoint is checked and handled. What it is refused for is answered, and
everything stays as it is. -/
theorem step_endpoint (d : Deployment) (now : Moment)
    (hroute : Route.of? r.target = some (.endpoint segment e)) (hmethod : r.method = "POST") :
    d.step (.request r now) =
      match Api.accept e.Message d.orchestrator segment r >>= Api.handle d.orchestrator now e with
      | .ok (response, ledger) => (response, d.withLedger ledger)
      | .error p => (.problem p, d) := by
  change d.respond now r = _
  simp only [respond, Api.respond, hroute, if_pos hmethod, Api.respondAt_eq]
  cases Api.accept e.Message d.orchestrator segment r >>= Api.handle d.orchestrator now e <;> rfl

/-- What has passed the checks is handled. -/
theorem step_of_accept {d : Deployment} (now : Moment)
    (hroute : Route.of? r.target = some (.endpoint segment e)) (hmethod : r.method = "POST")
    {a : Api.Accepted e.Message} (ha : Api.accept e.Message d.orchestrator segment r = .ok a) :
    d.step (.request r now) =
      match Api.handle d.orchestrator now e a with
      | .ok (response, ledger) => (response, d.withLedger ledger)
      | .error p => (.problem p, d) := by
  rw [step_endpoint d now hroute hmethod, ha]
  rfl

/-- What does not pass the checks is refused, and everything stays as it is. -/
theorem step_of_refused {d : Deployment} (now : Moment)
    (hroute : Route.of? r.target = some (.endpoint segment e)) (hmethod : r.method = "POST")
    {p : Api.Problem} (hp : Api.accept e.Message d.orchestrator segment r = .error p) :
    d.step (.request r now) = (.problem p, d) := by
  rw [step_endpoint d now hroute hmethod, hp]
  rfl

/-- **The handshake is a gate.** Consider a request to an endpoint, with a namespace that is a text
and a body that is said to be JSON, of whatever bytes. It passes the checks exactly when all
conditions of the handshake hold, each of which is said of the orchestrator and the request alone.
Then, and only then, it is handled, with the message that its body is read as and the declared party
that has sent it. Otherwise the first condition that does not hold, in the order of the checks, decides on the
status and the code of the answer, and the whole deployment stays as it is. -/
theorem handshake_gate (d : Deployment) (now : Moment)
    (hroute : Route.of? r.target = some (.endpoint segment e)) (hmethod : r.method = "POST")
    (hns : Route.namespace? segment = some ns)
    (hjson : r.contentType.any MediaType.isJsonText = true) :
    let o := d.orchestrator
    ((∃ a, Api.accept e.Message o segment r = .ok a) ↔
      ∀ c : Condition, c.Holds o ns e r.body) ∧
    (∀ a, Api.accept e.Message o segment r = .ok a →
      r.body.Carries a.message ∧ o.pool.view.snapshot = some a.snapshot ∧
      a.snapshot.parties.find? (Api.Fingerprinted.fingerprint a.message).party = some a.party ∧
      d.step (.request r now) =
        match Api.handle o now e a with
        | .ok (response, ledger) => (response, d.withLedger ledger)
        | .error p => (.problem p, d)) ∧
    ∀ c : Condition, ¬c.Holds o ns e r.body → (∀ b ∈ c.earlier, b.Holds o ns e r.body) →
      ∃ detail, d.step (.request r now) = (.problem ⟨c.kind, c.code, detail⟩, d) := by
  intro o
  refine ⟨Api.exists_accept_iff hns hjson, fun a ha => ?_, fun c hc hbefore => ?_⟩
  · obtain ⟨hread, hsnapshot, hparty⟩ := Api.facts_of_accept hns hjson ha
    exact ⟨hread, hsnapshot, hparty, step_of_accept now hroute hmethod ha⟩
  · obtain ⟨detail, hrefused⟩ := Api.accept_of_first hns hjson hc hbefore
    exact ⟨detail, step_of_refused now hroute hmethod hrefused⟩

/-- A pool that follows a revision which declares a party. -/
def hosted : Deployment :=
  (new (some "r") .empty).withPool (Pool.empty.install
    ⟨.ofList [("orchestrator.url", "o")], .ofList [(Sample.party.name, Sample.party)], ∅⟩ ∅)

/-- The party asks what the pool offers. -/
def greeting : Api.Request where
  method := "POST"
  target := (Namespace.ofRepository "r").path .discover
  contentType := some "application/json"
  body := "\x7b\"fingerprint\":\x7b\"config_repo_url\":\"r\",\"version\":\"0.1.0\"," ++
    "\"party_name\":\"p1\"\x7d\x7d"

theorem hosted_holds (c : Condition) :
    c.Holds hosted.orchestrator (Namespace.ofRepository "r").text .discover greeting.body := by
  have hread : greeting.body.Carries (⟨⟨"r", "0.1.0", Sample.party.name⟩⟩ : DiscoverRequest) :=
    Api.Body.carries_ofText_iff.mpr ⟨by decide, rfl⟩
  cases c with
  | configured => exact Option.some_ne_none "r"
  | addressed => exact ⟨"r", rfl, rfl⟩
  | loaded => exact Option.some_ne_none _
  | readable => exact ⟨_, hread⟩
  | version | repository => exact ⟨_, hread, rfl⟩
  | party => exact ⟨_, _, hread, rfl, Option.some_ne_none Sample.party⟩

/-- The greeting is handled. With an empty body it is refused for its body, and so it is with one
that is too long. -/
theorem handshake_gate_of_bodies :
    (∃ a, Api.accept DiscoverRequest hosted.orchestrator (Namespace.ofRepository "r").text greeting =
      .ok a) ∧
    ∀ body ∈ [Api.Body.ofText "", ⟨List.replicate (Api.Body.limit + 1) 0x20⟩],
      ∃ detail, hosted.step (.request { greeting with body } ⟨0, 0⟩) =
        (.problem ⟨.badRequest, "invalid_payload", detail⟩, hosted) := by
  have hroute : Route.of? greeting.target =
      some (.endpoint (Namespace.ofRepository "r").text .discover) :=
    Namespace.route_path "r" .discover
  have hns := Namespace.namespace?_text "r"
  have hjson : greeting.contentType.any MediaType.isJsonText = true := by decide
  constructor
  · exact (handshake_gate hosted ⟨0, 0⟩ hroute rfl hns hjson).1.mpr hosted_holds
  intro body hbody
  refine (handshake_gate hosted ⟨0, 0⟩ (r := { greeting with body }) hroute rfl hns
    hjson).2.2 .readable ?_ ?_
  · rintro ⟨m, hm⟩
    simp only [List.mem_cons, List.not_mem_nil, or_false] at hbody
    rcases hbody with rfl | rfl
    · cases (Api.Body.carries_ofText_iff.mp hm).2
    · have hlength := hm.length
      simp only [List.length_replicate] at hlength
      exact Nat.not_succ_le_self _ hlength
  · intro b hb
    have hb' : b = .configured ∨ b = .addressed ∨ b = .loaded := by
      simpa [Condition.earlier, Condition.all] using hb
    rcases hb' with rfl | rfl | rfl
    · exact hosted_holds .configured
    · exact hosted_holds .addressed
    · exact hosted_holds .loaded

end Deployment

end NodeLending
