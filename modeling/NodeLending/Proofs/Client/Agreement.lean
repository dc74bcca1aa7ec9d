import NodeLending.Proofs.Client.Network
import NodeLending.Proofs.Deployment.Proceed
import NodeLending.Proofs.Pool.Stray
import NodeLending.Proofs.Repository.Flaw

/-!
# A party and the pool agree

Over a network that changes nothing, what a party is told is a matter of the deployment alone. If it
welcomes the party, a session opens, and whatever the session asks is answered by what the pool and
the reservations are at that moment. If it does not, every activity of the party ends with an error,
and nothing is taken for an answer that is none.

## Main definitions

* `Session.Served`, `Session.Refused`: what a session is told.

## Main results

* `Deployment.visit_discover`: who discovers the pool.
* `Deployment.served`, `Deployment.refused`: what a session is told when its party is welcome, and
  when it is not.
* `Deployment.client_agreement`: a party and the pool agree.
-/

namespace NodeLending

/-! ### Handlers -/

namespace Api

variable {o : Orchestrator} {now : Moment}

theorem hasNode_text (v : PoolView) (n : NodeName) :
    v.hasNode n.text = v.inventory.contains n := by
  rw [PoolView.hasNode, Name.parse?_text]

theorem handle_nodeStatus {a : Accepted NodeStatusRequest} {n : NodeName}
    (hn : a.message.node = n.text) : handle o now .nodeStatus a =
      .ok (.json 200 (Json.encode (NodeStatusResponse.mk
        (.ofBool (o.pool.view.inventory.contains n)))), o.ledger) := by
  change Except.ok (Response.json 200 (Json.encode (nodeStatus o a)), o.ledger) = _
  rw [nodeStatus, hn, hasNode_text]

theorem handle_runStatus {a : Accepted RunStatusRequest} {id : ReservationId}
    (hid : a.message.run = id) : handle o now .runStatus a =
      .ok (.json 200 (Json.encode (RunStatusResponse.mk (.ofBool (o.queue.isLive id)))),
        o.ledger) :=
  hid ▸ rfl

theorem handle_returnNode_of_contains {a : Accepted ReturnRequest} {n : NodeName}
    (hn : a.message.node = n.text) (hthere : o.pool.view.inventory.contains n = true) :
    handle o now .returnNode a = .ok (.bare 200, o.ledger) := by
  change (giveBack o a).map _ = _
  rw [giveBack, hn, hasNode_text, if_pos hthere]
  rfl

theorem handle_returnNode_of_not_contains {a : Accepted ReturnRequest} {n : NodeName}
    (hn : a.message.node = n.text) (hgone : ¬o.pool.view.inventory.contains n = true) :
    ∃ detail, handle o now .returnNode a = .error ⟨.notFound, nodeNotFound, detail⟩ := by
  change ∃ detail, (giveBack o a).map _ = _
  rw [giveBack, hn, hasNode_text, if_neg hgone]
  exact ⟨_, rfl⟩

section Reports

variable {a : Accepted ReportRequest} {items : List WorkloadItem} {sender : PartyName}
  (hitems : a.message.items = items) (hsender : a.party.name = sender)

include hitems hsender

theorem handle_report_of_own (h : ∀ i ∈ items, i.owner = sender) :
    handle o now .reportWorkload a =
      .ok (.json 200 (Json.encode (ReportResponse.mk (.ofNat items.length))),
        o.ledger.record sender items now) := by
  have hfind : items.find? (fun i => i.owner ≠ sender) = none :=
    List.find?_eq_none.mpr fun i hi => by simp [h i hi]
  change (report o now a).map _ = _
  simp only [report, hitems, hsender, hfind]
  rfl

theorem handle_report_of_other (h : ∃ i ∈ items, i.owner ≠ sender) :
    ∃ detail, handle o now .reportWorkload a = .error ⟨.badRequest, "owner_mismatch", detail⟩ := by
  have hfind : (items.find? fun i => i.owner ≠ sender).isSome = true := by
    obtain ⟨i, hi, hne⟩ := h
    exact List.find?_isSome.mpr ⟨i, hi, by simpa using hne⟩
  obtain ⟨i, hi⟩ := Option.isSome_iff_exists.mp hfind
  change ∃ detail, (report o now a).map _ = _
  simp only [report, hitems, hsender, hi]
  exact ⟨_, rfl⟩

end Reports

end Api

/-! ### Sessions -/

/-- What a session is told as long as its party is welcome, provided that what it sends is short
enough. A node is known exactly when it is in the published inventory, a reservation is known
exactly when it waits or runs, and a report is taken exactly when all of it belongs to the party. -/
structure Session.Served (s : Session) (d : Deployment) (now : Moment)
    (queued : List WorkloadItem) : Prop where
  /-- Nodes are asked for. -/
  nodeStatus : ∀ n : NodeName, Api.Fits (NodeStatusRequest.mk s.client.fingerprint n.text) →
    d.visit now queued (s.nodeStatus n) =
      (.ok (if d.inventory.contains n then .found else .notFound), d)
  /-- Nodes are given back. -/
  returnNode : ∀ (n : NodeName) status,
    Api.Fits (ReturnRequest.mk s.client.fingerprint n.text status) →
    d.visit now queued (s.returnNode n status) =
      (.ok (if d.inventory.contains n then .returned else .alreadyResolved), d)
  /-- Reservations are asked for. -/
  runStatus : ∀ id, Api.Fits (RunStatusRequest.mk s.client.fingerprint id) →
    ∃ p, d.visit now queued (s.runStatus id) = (.ok p, d) ∧
      (p = .found ↔ d.queue.stage? id = some .pending ∨
        ∃ n, d.queue.stage? id = some (.bound n))
  /-- The party reports its own demand. All of it is recorded, and replaces what it had reported. -/
  report : ∀ items : List WorkloadItem, (∀ i ∈ items, i.owner = s.client.party) →
    Api.Fits (ReportRequest.mk s.client.fingerprint items) →
    d.visit now queued (s.report items) = (.ok (.ofNat items.length),
      d.withLedger (d.orchestrator.ledger.record s.client.party items now))
  /-- The party reports demand of others. -/
  report_other : ∀ items : List WorkloadItem, (∃ i ∈ items, i.owner ≠ s.client.party) →
    ∃ err, d.visit now queued (s.report items) = (.error err, d)

/-- What a session is told when its party is not welcome any more. -/
structure Session.Refused (s : Session) (d : Deployment) (now : Moment)
    (queued : List WorkloadItem) : Prop where
  /-- Nodes are asked for. -/
  nodeStatus : ∀ n, ∃ err, d.visit now queued (s.nodeStatus n) = (.error err, d)
  /-- Nodes are given back. -/
  returnNode : ∀ n status, ∃ err, d.visit now queued (s.returnNode n status) = (.error err, d)
  /-- Reservations are asked for. -/
  runStatus : ∀ id, ∃ err, d.visit now queued (s.runStatus id) = (.error err, d)
  /-- Demand is reported. -/
  report : ∀ items, ∃ err, d.visit now queued (s.report items) = (.error err, d)

namespace Deployment

variable {d : Deployment} {c : Client} {now : Moment} {queued : List WorkloadItem}

/-- A party discovers the pool exactly when it is welcome and what it sends is short enough, which
changes nothing. -/
theorem visit_discover (hroot : c.base.path = .segments [""]) (d : Deployment) (now : Moment)
    (queued : List WorkloadItem) :
    (d.Welcomes c ∧ Api.Fits (DiscoverRequest.mk c.fingerprint) →
      ∃ s, d.visit now queued c.discover = (.ok s, d) ∧ s.client = c) ∧
    (¬(d.Welcomes c ∧ Api.Fits (DiscoverRequest.mk c.fingerprint)) →
      ∃ err, d.visit now queued c.discover = (.error err, d)) := by
  constructor
  · rintro ⟨h, hfits⟩
    obtain ⟨a, -, -, -, hvisit⟩ := visit_of_welcomes hroot h
      (e := .discover) (m := DiscoverRequest.mk c.fingerprint) rfl hfits now queued
      fun r => Client.receive DiscoverResponse r >>= c.openSession
    refine ⟨⟨c, Api.discover d.orchestrator a⟩, hvisit.trans ?_, rfl⟩
    simp only [Api.handle, Client.receive_json]
    rfl
  · intro h
    refine visit_of_not_welcomes hroot (e := .discover) h rfl fun p _ => ?_
    obtain ⟨err, herr⟩ := Client.receive_problem (α := DiscoverResponse) p
    exact ⟨err, by rw [herr]; rfl⟩

/-! ### What a session is told -/

/-- A reservation is live exactly when it waits or runs. -/
theorem isLive_eq_true_iff {q : Queue} {id : ReservationId} : q.isLive id = true ↔
    q.stage? id = some .pending ∨ ∃ n, q.stage? id = some (.bound n) := by
  rw [Queue.isLive]
  cases q.stage? id with
  | none => simp
  | some stage => cases stage <;> simp [Reservation.Stage.isLive]

/-- The revision that a pool follows has been read from the files of a repository. -/
theorem exists_read_of_snapshot (repository : Option String) (files : FileTree)
    (events : List Event) {s : Snapshot}
    (hs : ((new repository files).after events).pool.view.snapshot = some s) :
    ∃ tree, Snapshot.read tree = .ok s := by
  refine (leads_after _ events).invariant
    (I := fun d => ∀ s, d.pool.view.snapshot = some s → ∃ tree, Snapshot.read tree = .ok s)
    (fun a d _ hd s hs => ?_) (fun s hs => by cases hs) s hs
  cases a with
  | apply fetched =>
    rw [snapshot_apply] at hs
    cases hread : Pass.read fetched with
    | error e =>
      rw [hread] at hs
      exact hd s hs
    | ok s' =>
      rw [hread] at hs
      cases hs
      obtain ⟨tree, -, htree⟩ := Pass.exists_tree_of_read hread
      exact ⟨tree, htree⟩
  | reset => cases hs
  | _ => exact hd s hs

section Sessions

variable {s : Session} (hroot : s.client.base.path = .segments [""])

include hroot

/-- A session whose party is welcome is served. -/
theorem served (h : d.Welcomes s.client)
    (hname : ∀ r n p, d.pool.view.snapshot = some r → r.parties.find? n = some p → p.name = n) :
    s.Served d now queued where
  nodeStatus n hfits := by
    obtain ⟨a, hmessage, -, -, hvisit⟩ := visit_of_welcomes hroot h
      (e := .nodeStatus) (m := NodeStatusRequest.mk s.client.fingerprint n.text) rfl hfits now queued
      fun r => (Client.receive NodeStatusResponse r).map NodeStatusResponse.state
    refine hvisit.trans ?_
    rw [Api.handle_nodeStatus (congrArg NodeStatusRequest.node hmessage)]
    simp only [Client.receive_json]
    rfl
  returnNode n status hfits := by
    obtain ⟨a, hmessage, -, -, hvisit⟩ := visit_of_welcomes hroot h
      (e := .returnNode) (m := ReturnRequest.mk s.client.fingerprint n.text status) rfl hfits now queued
      Session.returnOutcome
    have hnode := congrArg ReturnRequest.node hmessage
    refine hvisit.trans ?_
    split_ifs with hthere
    · rw [Api.handle_returnNode_of_contains hnode hthere]
      rfl
    · obtain ⟨detail, hhandle⟩ := Api.handle_returnNode_of_not_contains hnode hthere
      rw [hhandle]
      exact congrArg (·, d) (Session.returnOutcome_nodeNotFound detail)
  runStatus id hfits := by
    obtain ⟨a, hmessage, -, -, hvisit⟩ := visit_of_welcomes hroot h
      (e := .runStatus) (m := RunStatusRequest.mk s.client.fingerprint id) rfl hfits now queued
      fun r => (Client.receive RunStatusResponse r).map RunStatusResponse.state
    refine ⟨.ofBool (d.queue.isLive id), hvisit.trans ?_, ?_⟩
    · rw [Api.handle_runStatus (congrArg RunStatusRequest.run hmessage)]
      simp only [Client.receive_json]
      rfl
    · rw [← isLive_eq_true_iff]
      cases d.queue.isLive id <;> simp [Presence.ofBool]
  report items hown hfits := by
    obtain ⟨a, hmessage, hs, hparty, hvisit⟩ := visit_of_welcomes hroot h
      (e := .reportWorkload) (m := ReportRequest.mk s.client.fingerprint items) rfl hfits now queued
      fun r => (Client.receive ReportResponse r).map ReportResponse.accepted
    have hitems : a.message.items = items := congrArg ReportRequest.items hmessage
    have hsender := hname _ _ _ hs hparty
    refine hvisit.trans ?_
    rw [Api.handle_report_of_own hitems hsender hown]
    simp only [Client.receive_json]
    rfl
  report_other items hother := by
    by_cases hfits : Api.Fits (ReportRequest.mk s.client.fingerprint items)
    swap
    · exact visit_of_not_welcomes hroot (e := .reportWorkload) (fun hboth => hfits hboth.2) rfl
        fun p _ => Client.map_receive_problem ReportResponse.accepted p
    obtain ⟨a, hmessage, hs, hparty, hvisit⟩ := visit_of_welcomes hroot h
      (e := .reportWorkload) (m := ReportRequest.mk s.client.fingerprint items) rfl hfits now queued
      fun r => (Client.receive ReportResponse r).map ReportResponse.accepted
    have hitems : a.message.items = items := congrArg ReportRequest.items hmessage
    have hsender := hname _ _ _ hs hparty
    obtain ⟨detail, hhandle⟩ : ∃ detail, Api.handle d.orchestrator now .reportWorkload a =
        .error ⟨.badRequest, "owner_mismatch", detail⟩ :=
      Api.handle_report_of_other hitems hsender hother
    obtain ⟨err, herr⟩ := Client.map_receive_problem ReportResponse.accepted
      ⟨.badRequest, "owner_mismatch", detail⟩
    refine ⟨err, hvisit.trans ?_⟩
    rw [hhandle]
    exact congrArg (·, d) herr

/-- A session whose party is not welcome any more is refused. -/
theorem refused (h : ¬d.Welcomes s.client) : s.Refused d now queued where
  nodeStatus _ := visit_of_not_welcomes hroot (e := .nodeStatus) (fun hboth => h hboth.1) rfl fun p _ =>
    Client.map_receive_problem NodeStatusResponse.state p
  returnNode _ _ := visit_of_not_welcomes hroot (e := .returnNode) (fun hboth => h hboth.1) rfl fun _ hp =>
    Session.returnOutcome_problem hp
  runStatus _ := visit_of_not_welcomes hroot (e := .runStatus) (fun hboth => h hboth.1) rfl fun p _ =>
    Client.map_receive_problem RunStatusResponse.state p
  report _ := visit_of_not_welcomes hroot (e := .reportWorkload) (fun hboth => h hboth.1) rfl fun p _ =>
    Client.map_receive_problem ReportResponse.accepted p

end Sessions

/-- **A party and the pool agree.** Consider a party that reaches an orchestrator under the root of
its address, over a network that changes nothing. Whatever has happened before, a discovery opens a
session exactly when the party is welcome, if what it sends is not too long to be read, and it
changes nothing. Whatever happens later, the session is served as long as the party is welcome, and
refused otherwise. -/
theorem client_agreement (repository : Option String) (files : FileTree) (events : List Event)
    {c : Client} (hroot : c.base.path = .segments [""]) (now : Moment)
    (queued : List WorkloadItem) :
    let d := (new repository files).after events
    ((∃ s, (d.visit now queued c.discover).1 = .ok s) ↔
      d.Welcomes c ∧ Api.Fits (DiscoverRequest.mk c.fingerprint)) ∧
    (d.visit now queued c.discover).2 = d ∧
    ∀ s, (d.visit now queued c.discover).1 = .ok s → s.client = c ∧
      ∀ (later : List Event) (now : Moment) (queued : List WorkloadItem),
        ((d.after later).Welcomes c → s.Served (d.after later) now queued) ∧
        (¬(d.after later).Welcomes c → s.Refused (d.after later) now queued) := by
  intro d
  by_cases h : d.Welcomes c ∧ Api.Fits (DiscoverRequest.mk c.fingerprint)
  · obtain ⟨s, hvisit, hclient⟩ := (visit_discover hroot d now queued).1 h
    rw [hvisit]
    refine ⟨iff_of_true ⟨s, rfl⟩ h, rfl, fun s' hs' => ?_⟩
    obtain rfl : s = s' := Except.ok.inj hs'
    subst hclient
    refine ⟨rfl, fun later now queued => ⟨fun hlater => ?_, refused hroot⟩⟩
    refine served hroot hlater fun r n p hr hp => ?_
    have hevents : d.after later = (new repository files).after (events ++ later) :=
      (after_append _ events later).symm
    rw [hevents] at hr
    obtain ⟨tree, hread⟩ := exists_read_of_snapshot repository files (events ++ later) hr
    exact Snapshot.name_eq_of_read hread hp
  · obtain ⟨err, hvisit⟩ := (visit_discover hroot d now queued).2 h
    rw [hvisit]
    refine ⟨iff_of_false ?_ h, rfl, fun s hs => ?_⟩
    · rintro ⟨s, hs⟩
      cases hs
    · cases hs

end Deployment

namespace Sample

/-- What is declared of the party. -/
def manifest : String := "name='p1'\nurl='http://p'"

/-- A revision that declares the party. -/
def invitation : FileTree :=
  .ofList [("config", "orchestrator.url=o"), ("parties/p1.toml", manifest)]

/-- The party with the address of the orchestrator. -/
def client : Client :=
  ⟨⟨"http", "", "", some (.name "o"), none, .segments [""], none, none⟩, "r", party.name⟩

set_option maxRecDepth 8000 in
theorem readParty_party : ∃ p, Snapshot.readParty "parties/p1.toml" manifest = .ok p ∧
    p.name = party.name := by
  have htokens : Toml.Token.ofChars manifest.toList =
      [.atom ['n', 'a', 'm', 'e'], .equals, .text "p1" false, .newline,
        .atom ['u', 'r', 'l'], .equals, .text "http://p" false] := by decide
  have hparse : Toml.parse? manifest = some [("name", .text "p1"), ("url", .text "http://p")] := by
    rw [Toml.parse?, htokens]
    rfl
  have hmanifest : PartyManifest.read manifest = .ok ⟨"p1", "http://p", none⟩ := by
    rw [PartyManifest.read, Toml.read, hparse]
    rfl
  have hurl : Url.parse? (Party.slashedText "http://p") =
      .ok ⟨"http", "", "", some (.name "p"), none, .segments [""], none, none⟩ := by decide
  have hname : Name.parse? .party "p1" = .ok party.name := Name.parse?_text party.name
  have hparty : Party.of? "http://p" "p1" none = .ok
      ⟨party.name, ⟨"http", "", "", some (.name "p"), none, .segments [""], none, none⟩, none⟩ := by
    simp only [Party.of?, hname, hurl]
    rfl
  have hread : Snapshot.readParty "parties/p1.toml" manifest =
      (Party.of? "http://p" "p1" none).mapError (.party "parties/p1.toml") := by
    rw [Snapshot.readParty, hmanifest]
    rfl
  rw [hread, hparty]
  exact ⟨_, rfl, rfl⟩

/-- The revision is read, and declares the party. -/
theorem read_invitation : ∃ s, Snapshot.read invitation = .ok s ∧
    s.parties.find? party.name ≠ none := by
  obtain ⟨p, hp, hname⟩ := readParty_party
  have hparties : Snapshot.manifests invitation Repository.partiesDirectory =
      [("p1", "parties/p1.toml", manifest)] := by decide
  have hnodes : Snapshot.manifests invitation Repository.nodesDirectory = [] := by decide
  have hconfig : Snapshot.readConfig invitation = .ok (.ofList [("orchestrator.url", "o")]) := by
    decide
  have hadd : Snapshot.addParty ∅ ("p1", "parties/p1.toml", manifest) =
      .ok (Keyed.insert ∅ p.name p) := by
    rw [Snapshot.addParty_of_ok (m := ("p1", "parties/p1.toml", manifest)) hp]
    rfl
  refine ⟨⟨.ofList [("orchestrator.url", "o")], Keyed.insert ∅ p.name p, ∅⟩, ?_, ?_⟩
  · simp only [Snapshot.read, hconfig, hparties, hnodes, List.foldlM_nil, List.foldlM_cons, hadd]
    rfl
  · rw [Keyed.find?_insert, if_pos hname.symm]
    exact Option.some_ne_none p

end Sample

namespace Deployment

/-- A pass over a revision that is not rejected follows it. -/
theorem snapshot_proceed {d : Deployment} {f : Except FetchError FileTree} {r : Snapshot}
    (hread : Pass.read f = .ok r) : (d.proceed (some f)).2.pool.view.snapshot = some r := by
  change (d.act (.apply f)).pool.view.snapshot = some r
  rw [snapshot_apply, hread]
  rfl

/-- A pool that follows the revision welcomes the party. -/
theorem welcomes_invited :
    ((new (some "r") Sample.invitation).after [.tryRun]).Welcomes Sample.client := by
  obtain ⟨r, hread, hparty⟩ := Sample.read_invitation
  have hr : Pass.read (.ok Sample.invitation) = .ok r := by
    rw [Pass.read, hread]
    rfl
  have hfetched : (new (some "r") Sample.invitation).fetched = some (.ok Sample.invitation) := rfl
  have htryRun : (new (some "r") Sample.invitation).after [.tryRun] =
      (new (some "r") Sample.invitation).pass.2 := rfl
  rw [htryRun, pass_eq, hfetched]
  exact ⟨by rw [repository_proceed]; rfl, r, snapshot_proceed hr, hparty⟩

/-- A pool that has forgotten everything welcomes nobody. -/
theorem not_welcomes_reset (d : Deployment) (c : Client) : ¬(d.after [.reset]).Welcomes c := by
  rintro ⟨-, s, hs, -⟩
  cases hs

/-- A pool that follows the revision serves the party, which reports that it waits for nothing, and
after a reset the pool refuses it. -/
theorem client_agreement_until_reset :
    let d := (new (some "r") Sample.invitation).after [.tryRun]
    ∃ s, (d.visit ⟨0, 0⟩ [] Sample.client.discover).1 = .ok s ∧ s.Served d ⟨0, 0⟩ [] ∧
      (d.visit ⟨0, 0⟩ [] (s.report [])).1 = .ok 0 ∧ s.Refused (d.after [.reset]) ⟨0, 0⟩ [] := by
  intro d
  obtain ⟨hopens, -, hsession⟩ :=
    client_agreement (some "r") Sample.invitation [.tryRun] (c := Sample.client) rfl ⟨0, 0⟩ []
  obtain ⟨s, hs⟩ := hopens.mpr ⟨welcomes_invited, by decide⟩
  obtain ⟨hclient, hlater⟩ := hsession s hs
  have hserved := (hlater [] ⟨0, 0⟩ []).1
  rw [after, List.foldl_nil] at hserved
  have hserved := hserved welcomes_invited
  have hfits : Api.Fits (ReportRequest.mk s.client.fingerprint []) := by
    rw [hclient]
    decide
  refine ⟨s, hs, hserved, ?_, (hlater [.reset] ⟨0, 0⟩ []).2 (not_welcomes_reset d _)⟩
  rw [hserved.report [] (List.forall_mem_nil _) hfits]
  rfl

end Deployment

end NodeLending
