import Mathlib.Data.List.Infix
import NodeLending.Proofs.Client.Agreement
import NodeLending.Proofs.Deployment.Traffic
import NodeLending.Proofs.Ledger.Summary

/-!
# What the ledger holds

A party reports its demand by a request. The report is taken if the request passes the checks and
all items belong to the sender, and then it replaces what the party had reported before. One item of
somebody else, wherever it stands, and nothing is taken. So the ledger holds the last report of each
party that has been taken, as it was sent, and no party appears in the report of another one.

Demand may also be recorded past the protocol, in the name of a party and without a check.

## Main definitions

* `Deployment.report?`, `Deployment.reports`: the reports that are taken, with their senders.

## Main results

* `Deployment.step_report_of_other`: a report with an item of somebody else is refused.
* `Deployment.ledger_after`: the ledger is what the reports that have been taken make of it.
* `Deployment.requests_inert`: requests decide nothing, and the ledger holds what its owners
  reported.
-/

namespace NodeLending

/-! ### Responses -/

namespace Api

variable {o : Orchestrator} {now : Moment} {r : Request} {segment : String}

/-- What has passed the checks is the message of the request, and its sender is declared in the
revision that the pool follows. -/
theorem message_of_accept {α : Type} [Json.Codec α] [Fingerprinted α] {a : Accepted α}
    (h : accept α o segment r = .ok a) :
    r.body.Carries a.message ∧ o.pool.view.snapshot = some a.snapshot ∧
      a.snapshot.parties.find? (Fingerprinted.fingerprint a.message).party = some a.party := by
  rw [accept] at h
  obtain ⟨ns, -, h⟩ := bind_eq_ok_iff.mp h
  obtain ⟨repository, -, h⟩ := bind_eq_ok_iff.mp h
  obtain ⟨s, hs, h⟩ := bind_eq_ok_iff.mp h
  obtain ⟨m, hm, h⟩ := bind_eq_ok_iff.mp h
  obtain ⟨-, -, h⟩ := bind_eq_ok_iff.mp h
  obtain ⟨p, hp, h⟩ := bind_eq_ok_iff.mp h
  obtain rfl := Except.ok.inj h
  refine ⟨?_, ?_, ?_⟩
  · have hdecode : decodeBody α r = .ok m := mapError_eq_ok_iff.mp hm
    rw [decodeBody] at hdecode
    split at hdecode
    · exact Body.decode_eq_ok_iff.mp hdecode
    · cases hdecode
  · rw [revision] at hs
    split at hs
    · next heq => rw [heq, Except.ok.inj hs]
    · cases hs
  · rw [senderOf] at hp
    split at hp
    · next heq => rw [heq, Except.ok.inj hp]
    · cases hp

/-- Endpoints other than the one for reports leave the ledger alone. -/
theorem ledger_of_handle {e : Endpoint} (he : e ≠ .reportWorkload) {a : Accepted e.Message}
    {x : Response × Ledger} (h : handle o now e a = .ok x) : x.2 = o.ledger := by
  cases e with
  | reportWorkload => exact absurd rfl he
  | returnNode =>
    obtain ⟨_, -, rfl⟩ := map_eq_ok_iff.mp h
    rfl
  | discover | nodeStatus | runStatus =>
    cases h
    rfl

/-- The request reports demand. -/
def Request.Reports (r : Request) : Prop :=
  r.method = "POST" ∧ ∃ segment, Route.of? r.target = some (.endpoint segment .reportWorkload)

/-- Requests that report no demand leave the ledger alone. -/
theorem ledger_respond (h : ¬r.Reports) : (respond o now r).2 = o.ledger := by
  rw [respond]
  split
  · rfl
  · split_ifs <;> rfl
  · next segment e hroute =>
    split_ifs with hmethod
    · rw [respondAt_eq]
      have he : e ≠ .reportWorkload := by
        rintro rfl
        exact h ⟨hmethod, segment, hroute⟩
      cases hx : accept e.Message o segment r >>= handle o now e with
      | error p => rfl
      | ok x =>
        obtain ⟨a, -, ha⟩ := bind_eq_ok_iff.mp hx
        exact ledger_of_handle he ha
    · rfl

/-- No problem is answered as if there were none. -/
theorem status_problem (p : Problem) : (Response.problem p).status ≠ 200 := by
  change p.kind.status ≠ 200
  cases p.kind <;> decide

end Api

/-! ### Reports that are taken -/

namespace Deployment

open Api (Route)

variable {d : Deployment}

/-- Parties are declared under their own names in the revision that the pool follows. -/
def Named (d : Deployment) : Prop :=
  ∀ s n p, d.pool.view.snapshot = some s → s.parties.find? n = some p → p.name = n

namespace Named

theorem new (repository : Option String) (files : FileTree) :
    (Deployment.new repository files).Named := nofun

theorem act (h : d.Named) (a : Act) : (d.act a).Named := by
  intro s n p hs hp
  cases a with
  | apply fetched =>
    rw [snapshot_apply] at hs
    cases hread : Pass.read fetched with
    | error e =>
      rw [hread] at hs
      exact h s n p hs hp
    | ok s' =>
      rw [hread] at hs
      cases hs
      obtain ⟨tree, -, htree⟩ := Pass.exists_tree_of_read hread
      exact Snapshot.name_eq_of_read htree hp
  | reset => cases hs
  | _ => exact h s n p hs hp

theorem step (h : d.Named) (e : Event) : (d.step e).2.Named :=
  (leads_step d e).invariant (I := Named) (fun a _ _ hd => hd.act a) h

end Named

/-- The report that an event leaves in the ledger, with its sender. A request leaves what it reports
if the answer says so. -/
def report? (d : Deployment) : Event → Option (PartyName × Report)
  | .report party items now => some (party, ⟨items, now⟩)
  | .request r now =>
    match Route.of? r.target,
      (Json.readBytes r.body.bytes : Except Json.DecodeError ReportRequest) with
    | some (.endpoint _ .reportWorkload), .ok m =>
      if r.method = "POST" ∧ (d.respond now r).1.status = 200 then
        some (m.fingerprint.party, ⟨m.items, now⟩)
      else none
    | _, _ => none
  | _ => none

/-- The reports that are taken in the course of events, with their senders. -/
def reports (d : Deployment) : List Event → List (PartyName × Report)
  | [] => []
  | e :: events => (d.report? e).toList ++ (d.step e).2.reports events

section Requests

variable {r : Api.Request} {now : Moment} {segment : String}

theorem report?_of_not_reports (h : ¬r.Reports) : d.report? (.request r now) = none := by
  rw [report?]
  split
  · next hroute _ =>
    rw [if_neg]
    rintro ⟨hmethod, -⟩
    exact h ⟨hmethod, _, hroute⟩
  · rfl

/-- The status of the answer to a request. -/
theorem status_of_step {response : Api.Response} {d' : Deployment}
    (h : d.step (.request r now) = (response, d')) :
    (d.respond now r).1.status = response.status := by
  have hrespond : d.respond now r = (response, d') := h
  rw [hrespond]

/-- A request that is not answered with success leaves no report. -/
theorem report?_of_status_ne (h : (d.respond now r).1.status ≠ 200) :
    d.report? (.request r now) = none := by
  rw [report?]
  split
  · exact if_neg fun hboth => h hboth.2
  · rfl

section Endpoint

variable (hroute : Route.of? r.target = some (.endpoint segment .reportWorkload))
  (hmethod : r.method = "POST")

include hroute hmethod

variable {a : Api.Accepted ReportRequest}
  (ha : Api.accept ReportRequest d.orchestrator segment r = .ok a)

include ha

/-- A report with an item of somebody else is refused, and changes nothing. -/
theorem step_report_of_other (h : ∃ i ∈ a.message.items, i.owner ≠ a.party.name) :
    ∃ detail, d.step (.request r now) =
      (.problem ⟨.badRequest, "owner_mismatch", detail⟩, d) := by
  obtain ⟨detail, hhandle⟩ : ∃ detail, Api.handle d.orchestrator now .reportWorkload a =
      .error ⟨.badRequest, "owner_mismatch", detail⟩ := Api.handle_report_of_other rfl rfl h
  exact ⟨detail, by rw [step_of_accept (e := .reportWorkload) now hroute hmethod ha, hhandle]⟩

/-- A report whose items all belong to the sender is taken. -/
theorem step_report_of_own (h : ∀ i ∈ a.message.items, i.owner = a.party.name) :
    d.step (.request r now) =
      (.json 200 (Json.encode (ReportResponse.mk (.ofNat a.message.items.length))),
        d.withLedger (d.orchestrator.ledger.record a.party.name a.message.items now)) := by
  rw [step_of_accept (e := .reportWorkload) now hroute hmethod ha,
    Api.handle_report_of_own rfl rfl h]

end Endpoint

/-- A request either changes nothing, or it leaves a report of its sender, whose items all belong to
the sender. -/
theorem report?_request (h : d.Named) (r : Api.Request) (now : Moment) :
    d.report? (.request r now) = none ∧ (d.step (.request r now)).2 = d ∨
    ∃ sender items, d.report? (.request r now) = some (sender, ⟨items, now⟩) ∧
      (d.step (.request r now)).2 = d.withLedger (d.orchestrator.ledger.record sender items now) ∧
      ∀ i ∈ items, i.owner = sender := by
  by_cases hreports : r.Reports
  · obtain ⟨hmethod, segment, hroute⟩ := hreports
    -- Whatever is refused leaves no report.
    have hrefused : ∀ p, d.step (.request r now) = (.problem p, d) →
        d.report? (.request r now) = none ∧ (d.step (.request r now)).2 = d := by
      intro p hstep
      refine ⟨report?_of_status_ne ?_, by rw [hstep]⟩
      rw [status_of_step hstep]
      exact Api.status_problem p
    cases haccept : Api.accept ReportRequest d.orchestrator segment r with
    | error p =>
      exact .inl (hrefused p (step_of_refused (e := .reportWorkload) now hroute hmethod haccept))
    | ok a =>
      obtain ⟨hcarries, hs, hparty⟩ := Api.message_of_accept haccept
      have hsender : a.party.name = a.message.fingerprint.party := h _ _ _ hs hparty
      by_cases hown : ∀ i ∈ a.message.items, i.owner = a.party.name
      · have hstep : d.step (.request r now) = _ := step_report_of_own hroute hmethod haccept hown
        have hstatus : (d.respond now r).1.status = 200 := status_of_step hstep
        refine .inr ⟨a.party.name, a.message.items, ?_, by rw [hstep], hown⟩
        simp only [report?, hroute, hcarries.read, hmethod, hstatus, hsender, and_self, if_true]
      · have hother : ∃ i ∈ a.message.items, i.owner ≠ a.party.name := by
          simpa using hown
        obtain ⟨detail, hstep⟩ : ∃ detail, d.step (.request r now) =
            (.problem ⟨.badRequest, "owner_mismatch", detail⟩, d) :=
          step_report_of_other hroute hmethod haccept hother
        exact .inl (hrefused _ hstep)
  · refine .inl ⟨report?_of_not_reports hreports, ?_⟩
    rw [step_request, Api.ledger_respond hreports]
    rfl

end Requests

/-! ### Runs -/

/-- What an event leaves in the ledger. -/
theorem ledger_step_eq (h : d.Named) (e : Event) : (d.step e).2.orchestrator.ledger =
    (d.report? e).toList.foldl Ledger.take d.orchestrator.ledger := by
  cases e with
  | report party items now => rfl
  | request r now =>
    rcases report?_request h r now with ⟨hnone, hstep⟩ | ⟨sender, items, htaken, hstep, -⟩
    · rw [hnone, hstep]
      rfl
    · rw [htaken, hstep]
      rfl
  | _ => exact ledger_step rfl rfl

/-- The ledger is what the reports that have been taken make of it. -/
theorem ledger_after (h : d.Named) (events : List Event) :
    (d.after events).orchestrator.ledger =
      (d.reports events).foldl Ledger.take d.orchestrator.ledger := by
  induction events generalizing d with
  | nil => rfl
  | cons e events ih =>
    rw [reports, List.foldl_append, ← ledger_step_eq h e]
    exact ih (h.step e)

/-- What is taken belongs to its sender, or it has been recorded past the protocol. -/
theorem owner_of_mem_reports (h : d.Named) {events : List Event} {x : PartyName × Report}
    (hx : x ∈ d.reports events) :
    (∀ i ∈ x.2.items, i.owner = x.1) ∨ .report x.1 x.2.items x.2.time ∈ events := by
  induction events generalizing d with
  | nil => cases hx
  | cons e events ih =>
    rcases List.mem_append.mp hx with hx | hx
    · have htaken : d.report? e = some x := Option.mem_toList.mp hx
      cases e with
      | report party items now =>
        obtain rfl := Option.some.inj htaken
        exact .inr List.mem_cons_self
      | request r now =>
        rcases report?_request h r now with ⟨hnone, -⟩ | ⟨sender, items, hsome, -, hitems⟩
        · rw [hnone] at htaken
          cases htaken
        · rw [hsome] at htaken
          obtain rfl := Option.some.inj htaken
          exact .inl hitems
      | _ => cases htaken
    · exact (ih (h.step e) hx).imp_right (List.mem_cons_of_mem e)

/-- **Requests decide nothing, and the ledger holds what its owners reported.**

* A run without its requests, whatever they are, gives everybody else the same results, and it goes
  through the same states except for the ledger.
* The ledger holds the last report of each party that has been taken, as it was sent, with the items
  in their order.
* All items that it holds for a party belong to the party, unless they have been recorded past the
  protocol.
* A report that passes the checks and has an item of somebody else, wherever it stands, is refused
  for it and changes nothing. -/
theorem requests_inert (repository : Option String) (files : FileTree) (events : List Event) :
    let d := new repository files
    let others := fun l : List Event => l.filter fun e => !e.isRequest
    (d.results events).filter (fun x => !x.1.isRequest) = d.results (others events) ∧
    (∀ before, before <+: events →
      ∃ ledger, d.after before = (d.after (others before)).withLedger ledger) ∧
    (∀ party, (d.after events).orchestrator.ledger.reports.find? party =
      Report.lastOf party (d.reports events)) ∧
    (∀ party r, (d.after events).orchestrator.ledger.reports.find? party = some r →
      (∀ i ∈ r.items, i.owner = party) ∨ .report party r.items r.time ∈ events) ∧
    ∀ r now segment a, Route.of? r.target = some (.endpoint segment .reportWorkload) →
      r.method = "POST" →
      Api.accept ReportRequest (d.after events).orchestrator segment r = .ok a →
      (∃ i ∈ a.message.items, i.owner ≠ a.party.name) →
      ∃ detail, (d.after events).step (.request r now) =
        (.problem ⟨.badRequest, "owner_mismatch", detail⟩, d.after events) := by
  intro d others
  have hnamed : d.Named := .new repository files
  have hledger : ∀ party, (d.after events).orchestrator.ledger.reports.find? party =
      Report.lastOf party (d.reports events) := by
    intro party
    have hempty : d.orchestrator.ledger.reports.find? party = none := rfl
    rw [ledger_after hnamed, Ledger.find?_foldl_take, hempty, Option.or_none]
  refine ⟨results_withLedger events d d.orchestrator.ledger,
    fun before _ => after_withLedger before d d.orchestrator.ledger, hledger,
    fun party r hr => ?_, fun r now segment a hroute hmethod ha hother =>
      step_report_of_other hroute hmethod ha hother⟩
  rw [hledger] at hr
  exact owner_of_mem_reports hnamed (Report.mem_of_lastOf hr)

/-- A party that is welcome reports its own demand, which is taken. -/
theorem step_report_of_welcomes {c : Client} (hroot : c.base.path = .segments [""])
    (hnamed : d.Named) (h : d.Welcomes c) {items : List WorkloadItem}
    (hown : ∀ i ∈ items, i.owner = c.party)
    (hfits : Api.Fits (ReportRequest.mk c.fingerprint items)) (now : Moment) :
    (d.step (.request (c.request .reportWorkload (ReportRequest.mk c.fingerprint items)).delivered
      now)).2 = d.withLedger (d.orchestrator.ledger.record c.party items now) := by
  obtain ⟨a, hmessage, hs, hparty, hstep⟩ := step_of_welcomes (e := .reportWorkload) hroot
    (m := ReportRequest.mk c.fingerprint items) rfl h hfits now
  rw [Api.handle_report_of_own (congrArg ReportRequest.items hmessage) (hnamed _ _ _ hs hparty)
    hown] at hstep
  exact congrArg Prod.snd hstep

/-- A party that is welcome reports a reservation. -/
def notice : Event := .request (Sample.client.request .reportWorkload
  (ReportRequest.mk Sample.client.fingerprint [⟨⟨1⟩, "a", Sample.client.party⟩])).delivered ⟨0, 0⟩

theorem lastOf_single_report :
    ((new (some "r") Sample.invitation).results [.tryRun, notice]).filter
      (fun x => !x.1.isRequest) = (new (some "r") Sample.invitation).results [.tryRun] ∧
    Report.lastOf Sample.client.party
      ((new (some "r") Sample.invitation).reports [.tryRun, notice]) =
      some ⟨[⟨⟨1⟩, "a", Sample.client.party⟩], ⟨0, 0⟩⟩ := by
  obtain ⟨hresults, -, hledger, -⟩ :=
    requests_inert (some "r") Sample.invitation [.tryRun, notice]
  have hnamed : ((new (some "r") Sample.invitation).after [.tryRun]).Named :=
    (Named.new (some "r") Sample.invitation).step .tryRun
  have hsplit : (new (some "r") Sample.invitation).after [.tryRun, notice] =
      ((new (some "r") Sample.invitation).after [.tryRun]).after [notice] :=
    after_append _ [.tryRun] [notice]
  refine ⟨hresults, ?_⟩
  rw [← hledger, hsplit, after_singleton, notice,
    step_report_of_welcomes rfl hnamed welcomes_invited (by simp) (by decide +kernel)]
  exact (Keyed.find?_insert _ _ _ _).trans (if_pos rfl)

end Deployment

end NodeLending
