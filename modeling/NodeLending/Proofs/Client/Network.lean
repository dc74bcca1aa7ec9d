import NodeLending.Client.Session
import NodeLending.Proofs.Api.Gate
import NodeLending.Proofs.Json.Messages

/-!
# Calls over the network

A party talks to a deployment over a network that changes nothing: a request arrives as it was sent,
and so does its response. A call of the party is then one request that is handled with the message
that the party has sent, or refused by one of the checks. Which of the two is a matter of the
deployment, which welcomes the party or does not, and of the length of the message.

## Main definitions

* `Deployment.visit`: an activity of a party against a deployment.
* `Deployment.Welcomes`: the deployment serves the repository of the party, and the revision that the
  pool follows declares the party.
* `Api.Fits`: a message is short enough for the body of a request.

## Main results

* `Api.holds_iff_welcomes`: the conditions of the handshake come down to a welcome.
* `Client.receive_json`, `Session.problemCode?_problem`: what the pool responds is received.
* `Deployment.visit_of_welcomes`, `Deployment.visit_of_not_welcomes`: how a call ends.
-/

namespace NodeLending

/-! ### The network -/

/-- A request as it arrives. -/
def Client.Request.delivered (r : Client.Request) : Api.Request where
  method := "POST"
  target := r.path
  contentType := some Api.Response.jsonType
  body := r.body.render

/-- A response as it arrives. -/
def Api.Response.delivered (r : Api.Response) : Client.Response where
  status := r.status
  body := (r.body.map Json.Value.render).getD ""

namespace Deployment

/-- A deployment responds to a party at some moment. The demand that waits in the queue of the party
is its own. -/
def serve (now : Moment) (queued : List WorkloadItem) :
    (q : Client.Question) → Deployment → Client.Answer q × Deployment
  | .send r, d => (some (d.step (.request r.delivered now)).1.delivered,
      (d.step (.request r.delivered now)).2)
  | .demand, d => (queued, d)

/-- An activity of a party against a deployment. -/
def visit {α : Type} (d : Deployment) (now : Moment) (queued : List WorkloadItem)
    (x : Client.Exchange α) : α × Deployment :=
  x.run (serve now queued) d

/-- The deployment serves the repository of a party, and the revision that the pool follows declares
the party. -/
structure Welcomes (d : Deployment) (c : Client) : Prop where
  /-- The repository is that of the party. -/
  repository : d.orchestrator.repository = some c.repository
  /-- The party is declared. -/
  declared : ∃ s, d.pool.view.snapshot = some s ∧ s.parties.find? c.party ≠ none

end Deployment

/-! ### Requests -/

theorem Namespace.path_eq_text (ns : Namespace) (e : Endpoint) :
    ns.path e = (Url.Path.segments [ns.text, e.segment]).text := by
  simp [path, Url.Path.text, String.join, String.append_assoc]

namespace Api

instance (e : Endpoint) : Json.Codec.Lawful e.Message :=
  match e with
  | .discover => inferInstanceAs (Json.Codec.Lawful DiscoverRequest)
  | .reportWorkload => inferInstanceAs (Json.Codec.Lawful ReportRequest)
  | .returnNode => inferInstanceAs (Json.Codec.Lawful ReturnRequest)
  | .nodeStatus => inferInstanceAs (Json.Codec.Lawful NodeStatusRequest)
  | .runStatus => inferInstanceAs (Json.Codec.Lawful RunStatusRequest)

/-- A message is short enough for the body of a request. -/
def Fits {α : Type} [Json.Codec α] (m : α) : Prop :=
  (Text.utf8 (Json.write m)).length ≤ Body.limit

instance {α : Type} [Json.Codec α] (m : α) : Decidable (Fits m) :=
  inferInstanceAs (Decidable (_ ≤ _))

/-- What a party sends is read as it was meant if it is short enough. -/
theorem carries_iff {c : Client} {e : Endpoint} {m m' : e.Message} :
    (c.request e m).delivered.body.Carries m' ↔ Fits m ∧ m' = m := by
  have hread : Json.read (Json.write m) = .ok m := Json.Codec.Lawful.read_write m
  refine Body.carries_ofText_iff.trans (and_congr_right fun _ => ?_)
  exact ⟨fun h => Except.ok.inj (h.symm.trans hread), fun h => h ▸ hread⟩

/-- For a message of a party, the conditions of the handshake come down to a welcome. -/
theorem holds_iff_welcomes {d : Deployment} {c : Client} {e : Endpoint} {m : e.Message}
    (hm : Fingerprinted.fingerprint m = c.fingerprint) :
    (∀ x : Condition,
      x.Holds d.orchestrator c.ns.text e (c.request e m).delivered.body) ↔
    d.Welcomes c ∧ Fits m := by
  constructor
  · intro h
    obtain ⟨m₁, hcarries, hrepository⟩ := h .repository
    obtain ⟨hfits, rfl⟩ := carries_iff.mp hcarries
    obtain ⟨m₂, s, hcarries, hs, hdeclared⟩ := h .party
    obtain ⟨-, rfl⟩ := carries_iff.mp hcarries
    rw [hm] at hrepository hdeclared
    exact ⟨⟨hrepository, s, hs, hdeclared⟩, hfits⟩
  · rintro ⟨⟨hrepository, s, hs, hdeclared⟩, hfits⟩ x
    have hcarries : (c.request e m).delivered.body.Carries m := carries_iff.mpr ⟨hfits, rfl⟩
    cases x with
    | configured => exact ne_of_eq_of_ne hrepository (Option.some_ne_none _)
    | addressed => exact ⟨c.repository, hrepository, rfl⟩
    | loaded => exact ne_of_eq_of_ne hs (Option.some_ne_none _)
    | readable => exact ⟨m, hcarries⟩
    | version => exact ⟨m, hcarries, hm ▸ rfl⟩
    | repository => exact ⟨m, hcarries, hm ▸ hrepository⟩
    | party => exact ⟨m, s, hcarries, hs, hm ▸ hdeclared⟩

end Api

namespace Client

variable {c : Client}

theorem Request.isJsonText_delivered (r : Request) :
    r.delivered.contentType.any Api.MediaType.isJsonText = true := by
  change Api.MediaType.isJsonText Api.Response.jsonType = true
  decide

theorem namespace?_ns (c : Client) : Api.Route.namespace? c.ns.text = some c.ns.text :=
  Namespace.namespace?_text c.repository

/-- The address of a pool is a folder. -/
theorem exists_folder [Url.Idna] {url location : String} {party : PartyName}
    (h : of? url location party = .ok c) :
    c.repository = location ∧ ∃ folder, c.base.path = .segments (folder ++ [""]) := by
  rw [of?, base?] at h
  split at h
  next => cases h
  next u _ =>
    split at h
    next hbase =>
      cases h
      exact ⟨rfl, Url.path_slashed hbase⟩
    next => cases h

/-- An orchestrator is asked for the paths that it serves, below the folder of its address. -/
theorem path_request_below {folder : List String} {s : String}
    (hbase : c.base.path = .segments (folder ++ [s])) (e : Endpoint) (m : e.Message) :
    (c.request e m).path = (Url.Path.segments folder).text ++ c.ns.path e := by
  rw [Namespace.path_eq_text, ← Url.Path.text_append]
  simp only [request, Url.resolve, hbase, List.dropLast_concat]

/-- An orchestrator under the root of its address is asked for the paths that it serves. -/
theorem path_request (hroot : c.base.path = .segments [""]) (e : Endpoint) (m : e.Message) :
    (c.request e m).path = c.ns.path e := by
  have hbase : c.base.path = .segments ([] ++ [""]) := hroot
  rw [path_request_below hbase]
  exact String.empty_append

end Client

namespace Deployment

open Api (Condition)

variable {d : Deployment} {c : Client} (hroot : c.base.path = .segments [""]) {e : Endpoint}
  {m : e.Message} (hm : Api.Fingerprinted.fingerprint m = c.fingerprint)

include hroot

theorem route_request (m : e.Message) : Api.Route.of? (c.request e m).delivered.target =
    some (.endpoint c.ns.text e) := by
  change Api.Route.of? (c.request e m).path = _
  rw [Client.path_request hroot]
  exact Namespace.route_path c.repository e

include hm

/-- A request of a party that is welcome is handled, with the message that the party has sent, if
that is short enough. -/
theorem step_of_welcomes (h : d.Welcomes c) (hfits : Api.Fits m) (now : Moment) :
    ∃ a : Api.Accepted e.Message, a.message = m ∧ d.pool.view.snapshot = some a.snapshot ∧
      a.snapshot.parties.find? c.party = some a.party ∧
      d.step (.request (c.request e m).delivered now) =
        match Api.handle d.orchestrator now e a with
        | .ok (response, ledger) => (response, d.withLedger ledger)
        | .error p => (.problem p, d) := by
  obtain ⟨a, ha, hmessage, hs, hparty⟩ := Api.accept_of_holds c.namespace?_ns
    (c.request e m).isJsonText_delivered ((Api.holds_iff_welcomes hm).mpr ⟨h, hfits⟩)
  obtain ⟨-, hmessage⟩ := Api.carries_iff.mp hmessage
  rw [hmessage, hm] at hparty
  exact ⟨a, hmessage, hs, hparty, step_of_accept now (route_request hroot _) rfl ha⟩

/-- Any other request is refused by one of the checks, and everything stays as it is. -/
theorem step_of_not_welcomes (h : ¬(d.Welcomes c ∧ Api.Fits m)) (now : Moment) :
    ∃ (x : Condition) (detail : String), d.step (.request (c.request e m).delivered now) =
      (.problem ⟨x.kind, x.code, detail⟩, d) := by
  obtain ⟨x, hx, hbefore⟩ := Condition.exists_first (mt (Api.holds_iff_welcomes hm).mp h)
  obtain ⟨detail, hrefused⟩ := Api.accept_of_first c.namespace?_ns
    (c.request e m).isJsonText_delivered hx hbefore
  exact ⟨x, detail, step_of_refused now (route_request hroot _) rfl hrefused⟩

end Deployment

/-! ### Responses -/

namespace Client

theorem check_json (v : Json.Value) :
    check (Api.Response.json 200 v).delivered = .ok v.render := rfl

/-- A value that the pool responds with is received. -/
theorem receive_json {α : Type} [Json.Codec α] [Json.Codec.Lawful α] (a : α) :
    receive α (Api.Response.json 200 (Json.encode a)).delivered = .ok a := by
  have hread := Json.Codec.Lawful.read_write a
  simp only [receive, check_json, bind, Except.bind, hread]

/-- A refusal is no success. -/
theorem check_problem (p : Api.Problem) :
    ∃ err, check (Api.Response.problem p).delivered = .error err := by
  obtain ⟨kind, code, detail⟩ := p
  cases kind <;> exact ⟨_, rfl⟩

theorem receive_problem {α : Type} [Json.Codec α] (p : Api.Problem) :
    ∃ err, receive α (Api.Response.problem p).delivered = .error err := by
  obtain ⟨err, herr⟩ := check_problem p
  exact ⟨err, by rw [receive, herr]; rfl⟩

theorem map_receive_problem {α β : Type} [Json.Codec α] (f : α → β) (p : Api.Problem) :
    ∃ err, (receive α (Api.Response.problem p).delivered).map f = .error err := by
  obtain ⟨err, herr⟩ := receive_problem (α := α) p
  exact ⟨err, by rw [herr]; rfl⟩

end Client

namespace Session

open Client

theorem plain_problem (p : Api.Problem) : p.toJson.Plain := by
  obtain ⟨kind, code, detail⟩ := p
  refine .object ?_
  simp only [List.forall_mem_cons]
  refine ⟨.string _, .string _, ?_, .string _, .string _, .bool _, List.forall_mem_nil _⟩
  cases kind <;> exact .integer (by decide) (by decide)

/-- The code of a refusal is found in its body. -/
theorem problemCode?_problem (p : Api.Problem) :
    problemCode? (Api.Response.problem p).delivered.body = some p.code := by
  have hdepth : p.toJson.depth = 1 := rfl
  have hread : Json.Value.read? p.toJson.render = some p.toJson :=
    (plain_problem p).read?_render (hdepth ▸ by decide)
  change (Json.Value.read? p.toJson.render >>= _) >>= _ = _
  rw [hread]
  rfl

/-- That the pool does not have a node is as good as success. -/
theorem returnOutcome_nodeNotFound (detail : String) :
    returnOutcome (Api.Response.problem ⟨.notFound, nodeNotFound, detail⟩).delivered =
      .ok .alreadyResolved := by
  have hstatus : (Api.Response.problem ⟨.notFound, nodeNotFound, detail⟩).delivered.status = 404 :=
    rfl
  rw [returnOutcome, if_pos hstatus, if_pos (problemCode?_problem _)]

/-- No other refusal is. -/
theorem returnOutcome_problem {p : Api.Problem} (hp : p.code ≠ nodeNotFound) :
    ∃ err, returnOutcome (Api.Response.problem p).delivered = .error err := by
  have hcode : problemCode? (Api.Response.problem p).delivered.body ≠ some nodeNotFound := by
    rw [problemCode?_problem]
    exact fun h => hp (Option.some.inj h)
  rw [returnOutcome, if_neg hcode]
  split
  · exact ⟨_, rfl⟩
  · obtain ⟨err, herr⟩ := check_problem p
    exact ⟨err, by rw [herr]; rfl⟩

end Session

/-! ### Calls -/

/-- What the codes of the handshake's refusals are not. -/
theorem Api.Condition.code_ne_nodeNotFound (x : Api.Condition) : x.code ≠ nodeNotFound := by
  cases x <;> decide

namespace Deployment

variable {d : Deployment} {c : Client} {now : Moment} {queued : List WorkloadItem} {β : Type}

/-- A call is one request, and its response is read. -/
theorem visit_call (d : Deployment) (c : Client) (e : Endpoint) (m : e.Message)
    (read : Client.Response → Except Client.Error β) :
    d.visit now queued (c.call e m read) =
      (read (d.step (.request (c.request e m).delivered now)).1.delivered,
        (d.step (.request (c.request e m).delivered now)).2) := by
  simp only [visit, Client.call, Client.send, Dialogue.run_bind, Dialogue.run_ask,
    Dialogue.run_done, serve, Dialogue.run_pure]

section Calls

variable (hroot : c.base.path = .segments [""])

include hroot

/-- A call of a party that is welcome ends with what the endpoint makes of its message. -/
theorem visit_of_welcomes (h : d.Welcomes c) {e : Endpoint} {m : e.Message}
    (hm : Api.Fingerprinted.fingerprint m = c.fingerprint) (hfits : Api.Fits m) (now : Moment)
    (queued : List WorkloadItem) (read : Client.Response → Except Client.Error β) :
    ∃ a : Api.Accepted e.Message, a.message = m ∧ d.pool.view.snapshot = some a.snapshot ∧
      a.snapshot.parties.find? c.party = some a.party ∧
      d.visit now queued (c.call e m read) =
        match Api.handle d.orchestrator now e a with
        | .ok (response, ledger) => (read response.delivered, d.withLedger ledger)
        | .error p => (read (Api.Response.problem p).delivered, d) := by
  obtain ⟨a, hmessage, hs, hparty, hstep⟩ := step_of_welcomes hroot hm h hfits now
  refine ⟨a, hmessage, hs, hparty, ?_⟩
  rw [visit_call, hstep]
  cases Api.handle d.orchestrator now e a <;> rfl

/-- A call of a party that is not welcome, or that sends too much, ends with an error and changes
nothing. -/
theorem visit_of_not_welcomes {e : Endpoint} {m : e.Message} (h : ¬(d.Welcomes c ∧ Api.Fits m))
    (hm : Api.Fingerprinted.fingerprint m = c.fingerprint)
    {read : Client.Response → Except Client.Error β}
    (hread : ∀ p : Api.Problem, p.code ≠ nodeNotFound →
      ∃ err, read (Api.Response.problem p).delivered = .error err) :
    ∃ err, d.visit now queued (c.call e m read) = (.error err, d) := by
  obtain ⟨x, detail, hstep⟩ := step_of_not_welcomes hroot hm h now
  obtain ⟨err, herr⟩ := hread ⟨x.kind, x.code, detail⟩ x.code_ne_nodeNotFound
  refine ⟨err, ?_⟩
  rw [visit_call, hstep, herr]

end Calls

end Deployment

end NodeLending
