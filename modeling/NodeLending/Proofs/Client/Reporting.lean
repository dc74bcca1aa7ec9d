import Mathlib.Data.List.Basic
import NodeLending.Client.Reporter
import NodeLending.Proofs.Client.Call

/-!
# What a reporter sends

A reporter sends discoveries and reports, tick by tick, to something that may respond as it likes. What
has been sent so far, with the responses, says whether a session is *alive*: the last discovery has
opened one, and every report since then has been accepted. A tick starts with a report exactly when a
session is alive, so no session is used after a failure and none is given up without one.

## Main definitions

* `Reporter.Sent`: a request of the reporter with its response.
* `Reporter.Alive`: whether a session is alive after some requests.
* `Reporter.Round`, `Reporter.Course`: what a tick sends, and what several ticks send.

## Main results

* `Reporter.tick_round`: what one tick sends, and whether it keeps a session.
* `Reporter.ticks_course`: what a number of ticks send.
* `Reporter.reports_in_session`: no report is sent without a session that is alive.
-/

namespace NodeLending

namespace Client

variable {c : Client}

/-- A response opens a session: it reports success, its body can be read, and the version in it is that
of the party. -/
def Opens (a : Option Response) : Prop :=
  ∃ r d, a = some r ∧ (200 ≤ r.status ∧ r.status < 300) ∧
    Json.read (α := DiscoverResponse) r.body = .ok d ∧ d.version = protocolVersion

/-- A response accepts a report: it reports success, and its body can be read. -/
def Accepts (a : Option Response) : Prop :=
  ∃ r m, a = some r ∧ (200 ≤ r.status ∧ r.status < 300) ∧
    Json.read (α := ReportResponse) r.body = .ok m

/-- The request for a discovery. -/
def discovery (c : Client) : Request := c.request .discover (DiscoverRequest.mk c.fingerprint)

/-- The request for a report. -/
def reporting (c : Client) (items : List WorkloadItem) : Request :=
  c.request .reportWorkload (ReportRequest.mk c.fingerprint items)

theorem openSession_eq_ok_iff {d : DiscoverResponse} {s : Session} :
    c.openSession d = .ok s ↔ d.version = protocolVersion ∧ s = ⟨c, d⟩ := by
  rw [openSession]
  split
  · next h => exact ⟨fun heq => ⟨h, (Except.ok.inj heq).symm⟩, fun heq => heq.2 ▸ rfl⟩
  · next h => exact iff_of_false nofun fun heq => h heq.1

/-- A discovery ends with a session of the party. -/
theorem client_of_received_discover {a : Option Response} {s : Session}
    (h : received (fun r => receive DiscoverResponse r >>= c.openSession) a = .ok s) :
    s.client = c := by
  obtain ⟨r, -, h⟩ := received_eq_ok_iff.mp h
  obtain ⟨d, -, h⟩ := bind_eq_ok_iff.mp h
  exact congrArg Session.client (openSession_eq_ok_iff.mp h).2

/-- A discovery ends well exactly when the response opens a session. -/
theorem exists_received_discover_iff {a : Option Response} :
    (∃ s, received (fun r => receive DiscoverResponse r >>= c.openSession) a = .ok s) ↔
      Opens a := by
  simp only [received_eq_ok_iff, bind_eq_ok_iff, receive_eq_ok_iff, isSuccess_iff,
    openSession_eq_ok_iff]
  constructor
  · rintro ⟨_, r, ha, d, ⟨hsuccess, hread⟩, hversion, -⟩
    exact ⟨r, d, ha, hsuccess, hread, hversion⟩
  · rintro ⟨r, d, ha, hsuccess, hread, hversion⟩
    exact ⟨_, r, ha, d, ⟨hsuccess, hread⟩, hversion, rfl⟩

/-- A report ends well exactly when the response accepts it. -/
theorem exists_received_report_iff {a : Option Response} :
    (∃ n, received (fun r => (receive ReportResponse r).map ReportResponse.accepted) a = .ok n) ↔
      Accepts a := by
  simp only [received_eq_ok_iff, map_eq_ok_iff, receive_eq_ok_iff, isSuccess_iff]
  constructor
  · rintro ⟨_, r, ha, m, ⟨hsuccess, hread⟩, -⟩
    exact ⟨r, m, ha, hsuccess, hread⟩
  · rintro ⟨r, m, ha, hsuccess, hread⟩
    exact ⟨_, r, ha, m, ⟨hsuccess, hread⟩, rfl⟩

end Client

namespace Reporter

open Client

/-- A request of the reporter, with the response to it if there is one. -/
inductive Sent where
  /-- A discovery. -/
  | discovery (response : Option Response)
  /-- A report of demand. -/
  | report (items : List WorkloadItem) (response : Option Response)

namespace Sent

/-- What is asked outside. The demand is looked at right before it is reported. -/
def asked (c : Client) : Sent → List ((q : Question) × Answer q)
  | discovery a => [⟨.send c.discovery, a⟩]
  | report items a => [⟨.demand, items⟩, ⟨.send (c.reporting items), a⟩]

/-- Whether the reporter has got what it asked for. -/
def Succeeds : Sent → Prop
  | discovery a => Opens a
  | report _ a => Accepts a

end Sent

/-- A session is alive: the last discovery has opened it, and every report since then has been
accepted. -/
def Alive (sent : List Sent) : Prop :=
  ∃ before a reports, sent = before ++ .discovery a :: reports ∧ Opens a ∧
    ∀ x ∈ reports, ∃ items b, x = .report items b ∧ Accepts b

/-- What a tick sends after some requests. -/
inductive Round (sent : List Sent) : List Sent → Prop
  | failed {a : Option Response} (start : ¬Alive sent) (closed : ¬Opens a) :
      Round sent [.discovery a]
  | opened {a b : Option Response} {items : List WorkloadItem} (start : ¬Alive sent)
      (opens : Opens a) : Round sent [.discovery a, .report items b]
  | again {b : Option Response} {items : List WorkloadItem} (start : Alive sent) :
      Round sent [.report items b]

/-- What several ticks send after some requests. -/
inductive Course : List Sent → List (List Sent) → Prop
  | nil {sent : List Sent} : Course sent []
  | cons {sent round : List Sent} {rounds : List (List Sent)} (first : Round sent round)
      (later : Course (sent ++ round) rounds) : Course sent (round :: rounds)

variable {sent round : List Sent} {rounds : List (List Sent)} {a b : Option Response}
  {items : List WorkloadItem}

/-! ### Sessions that are alive -/

theorem not_alive_nil : ¬Alive [] := by
  rintro ⟨before, a, reports, heq, -⟩
  cases before <;> cases heq

theorem alive_concat {x : Sent} : Alive (sent ++ [x]) ↔ (∃ a, x = .discovery a ∧ Opens a) ∨
    Alive sent ∧ ∃ items b, x = .report items b ∧ Accepts b := by
  constructor
  · rintro ⟨before, a, reports, heq, hopens, hreports⟩
    rcases List.eq_nil_or_concat reports with rfl | ⟨reports, y, rfl⟩
    · obtain ⟨-, heq⟩ := List.append_inj' heq rfl
      exact .inl ⟨a, List.singleton_inj.mp heq, hopens⟩
    · rw [List.concat_eq_append] at heq hreports
      rw [← List.cons_append, ← List.append_assoc] at heq
      obtain ⟨rfl, hlast⟩ := List.append_inj' heq rfl
      obtain rfl := List.singleton_inj.mp hlast
      obtain ⟨hreports, hlast⟩ := List.forall_mem_append.mp hreports
      exact .inr ⟨⟨before, a, reports, rfl, hopens, hreports⟩, hlast x (List.mem_singleton_self x)⟩
  · rintro (⟨a, rfl, hopens⟩ | ⟨⟨before, a, reports, rfl, hopens, hreports⟩, hx⟩)
    · exact ⟨sent, a, [], rfl, hopens, List.forall_mem_nil _⟩
    · refine ⟨before, a, reports ++ [x], List.append_assoc .., hopens, ?_⟩
      exact List.forall_mem_append.mpr ⟨hreports, List.forall_mem_singleton.mpr hx⟩

theorem alive_discovery : Alive (sent ++ [.discovery a]) ↔ Opens a := by
  simp [alive_concat]

theorem alive_report : Alive (sent ++ [.report items b]) ↔ Alive sent ∧ Accepts b := by
  simp [alive_concat]

/-- After a tick a session is alive exactly when nothing has failed in it. -/
theorem Round.alive_iff (h : Round sent round) :
    Alive (sent ++ round) ↔ ∀ x ∈ round, x.Succeeds := by
  cases h with
  | failed start closed =>
    rw [alive_discovery, List.forall_mem_singleton]
    rfl
  | @opened a b items start opens =>
    rw [← List.singleton_append, ← List.append_assoc, alive_report, alive_discovery,
      List.singleton_append, List.forall_mem_cons, List.forall_mem_singleton]
    rfl
  | again start =>
    rw [alive_report, List.forall_mem_singleton]
    exact and_iff_right start

/-- A tick starts with a discovery exactly when no session is alive. -/
theorem Round.head?_eq_discovery_iff (h : Round sent round) :
    (∃ a, round.head? = some (.discovery a)) ↔ ¬Alive sent := by
  cases h with
  | failed start | opened start => exact iff_of_true ⟨_, rfl⟩ start
  | again start => exact iff_of_false nofun (not_not_intro start)

/-! ### One tick -/

section Ticks

variable {σ : Type} (answer : (q : Question) → σ → Answer q × σ) (c : Client)

variable {c} {kept : Option Session}

/-- For a report the demand is looked at, and then sent. -/
theorem report_sends (s : Session) (st : σ) : ∃ items b,
    (report s).log answer st = (Sent.report items b).asked s.client ∧
      ((∃ n, ((report s).run answer st).1 = .ok n) ↔ Accepts b) := by
  let items := (answer .demand st).1
  let b := (answer (.send (s.client.reporting items)) (answer .demand st).2).1
  have hrun : ((report s).run answer st).1 =
      received (fun r => (receive ReportResponse r).map ReportResponse.accepted) b := by
    rw [report, Dialogue.run_bind]
    exact congrArg Prod.fst (run_call answer _ _ _ _ _)
  refine ⟨items, b, ?_, ?_⟩
  · rw [report, Dialogue.log_bind]
    exact congrArg (_ :: ·) (log_call answer _ _ _ _ _)
  · rw [hrun]
    exact exists_received_report_iff

/-- The session of a report is kept exactly when the report is accepted. -/
theorem reportIn_sends (s : Session) (st : σ) : ∃ items b,
    (reportIn s).log answer st = (Sent.report items b).asked s.client ∧
      (((reportIn s).run answer st).1.2 = some s ∧ Accepts b ∨
        ((reportIn s).run answer st).1.2 = none ∧ ¬Accepts b) := by
  obtain ⟨items, b, hlog, haccepts⟩ := report_sends answer s st
  refine ⟨items, b, ?_⟩
  rw [reportIn, Dialogue.log_bind, Dialogue.run_bind, hlog]
  cases hresult : ((report s).run answer st).1 with
  | ok n => exact ⟨List.append_nil _, .inl ⟨rfl, haccepts.mp ⟨n, hresult⟩⟩⟩
  | error err =>
    refine ⟨List.append_nil _, .inr ⟨rfl, fun h => ?_⟩⟩
    obtain ⟨n, hn⟩ := haccepts.mpr h
    cases hresult.symm.trans hn

/-- A discovery is sent, and its result is a session of the party exactly when the response opens
one. -/
theorem discover_sends (c : Client) (st : σ) : ∃ a,
    c.discover.log answer st = (Sent.discovery a).asked c ∧
      (∀ s, (c.discover.run answer st).1 = .ok s → s.client = c) ∧
      ((∃ s, (c.discover.run answer st).1 = .ok s) ↔ Opens a) := by
  let a := (answer (.send c.discovery) st).1
  have hrun : (c.discover.run answer st).1 =
      received (fun r => receive DiscoverResponse r >>= c.openSession) a :=
    congrArg Prod.fst (run_call answer _ _ _ _ _)
  refine ⟨a, log_call answer _ _ _ _ _, ?_, ?_⟩
  · rw [hrun]
    exact fun s => client_of_received_discover
  · rw [hrun]
    exact exists_received_discover_iff

/-- A session is kept exactly when one is alive, and it is one of the party. -/
structure Keeps (c : Client) (kept : Option Session) (sent : List Sent) : Prop where
  client : ∀ s, kept = some s → s.client = c
  alive : kept.isSome = true ↔ Alive sent

theorem keeps_some {s : Session} (hs : s.client = c) (h : Alive sent) : Keeps c (some s) sent :=
  ⟨fun _ heq => Option.some.inj heq ▸ hs, iff_of_true rfl h⟩

theorem keeps_none (h : ¬Alive sent) : Keeps c none sent :=
  ⟨fun s heq => absurd heq.symm (Option.some_ne_none s), iff_of_false Bool.false_ne_true h⟩

/-- A report in a session that is alive. -/
theorem reportIn_again {s : Session} (hs : s.client = c) (h : Alive sent) (st : σ) : ∃ items b,
    (reportIn s).log answer st = (Sent.report items b).asked c ∧
      Keeps c ((reportIn s).run answer st).1.2 (sent ++ [.report items b]) := by
  obtain ⟨items, b, hlog, hkept⟩ := reportIn_sends answer s st
  refine ⟨items, b, hs ▸ hlog, ?_⟩
  rcases hkept with ⟨hsome, haccepts⟩ | ⟨hnone, hrefused⟩
  · rw [hsome]
    exact keeps_some hs (alive_report.mpr ⟨h, haccepts⟩)
  · rw [hnone]
    exact keeps_none fun halive => hrefused (alive_report.mp halive).2

/-- **What one tick sends.** It is a round after what has been sent, and a session is kept exactly when
one is alive then. -/
theorem tick_round (h : Keeps c kept sent) (st : σ) : ∃ round, Round sent round ∧
    (tick c kept).log answer st = round.flatMap (Sent.asked c) ∧
      Keeps c ((tick c kept).run answer st).1.2 (sent ++ round) := by
  cases kept with
  | some s =>
    have halive : Alive sent := h.alive.mp rfl
    obtain ⟨items, b, hlog, hkeeps⟩ := reportIn_again answer (h.client s rfl) halive st
    refine ⟨[.report items b], .again halive, ?_, hkeeps⟩
    rw [List.flatMap_singleton]
    exact hlog
  | none =>
    have hdead : ¬Alive sent := fun halive => Bool.false_ne_true (h.alive.mpr halive)
    obtain ⟨a, hlog, hclient, hopens⟩ := discover_sends answer c st
    rw [tick, Dialogue.log_bind, Dialogue.run_bind, hlog]
    cases hresult : (c.discover.run answer st).1 with
    | ok s =>
      have halive : Alive (sent ++ [.discovery a]) :=
        alive_discovery.mpr (hopens.mp ⟨s, hresult⟩)
      obtain ⟨items, b, hreport, hkeeps⟩ :=
        reportIn_again answer (hclient s hresult) halive (c.discover.run answer st).2
      refine ⟨[.discovery a, .report items b], .opened hdead (hopens.mp ⟨s, hresult⟩), ?_, ?_⟩
      · rw [List.flatMap_cons, List.flatMap_singleton]
        exact congrArg (_ ++ ·) hreport
      · rw [List.append_assoc] at hkeeps
        exact hkeeps
    | error err =>
      have hclosed : ¬Opens a := by
        intro h
        obtain ⟨s, hs⟩ := hopens.mpr h
        cases hresult.symm.trans hs
      refine ⟨[.discovery a], .failed hdead hclosed, ?_, ?_⟩
      · rw [List.flatMap_singleton]
        exact List.append_nil _
      · exact keeps_none fun halive => hclosed (alive_discovery.mp halive)

/-- What a number of ticks send: tick by tick, it is a course after what has been sent. -/
theorem ticks_course (h : Keeps c kept sent) (n : Nat) (st : σ) : ∃ rounds, rounds.length = n ∧
    Course sent rounds ∧ ∀ k ≤ n, (ticks c kept k).log answer st =
      (rounds.take k).flatten.flatMap (Sent.asked c) := by
  induction n generalizing kept sent st with
  | zero =>
    refine ⟨[], rfl, .nil, fun k hk => ?_⟩
    rw [Nat.le_zero.mp hk]
    rfl
  | succ n ih =>
    obtain ⟨round, hround, hlog, hkeeps⟩ := tick_round answer h st
    obtain ⟨rounds, hlength, hcourse, hrounds⟩ := ih hkeeps ((tick c kept).run answer st).2
    refine ⟨round :: rounds, congrArg (· + 1) hlength, .cons hround hcourse, fun k hk => ?_⟩
    cases k with
    | zero => rfl
    | succ k =>
      rw [ticks, Dialogue.log_bind, hlog, List.take_succ_cons, List.flatten_cons,
        List.flatMap_append]
      exact congrArg (_ ++ ·) (hrounds k (Nat.le_of_succ_le_succ hk))

end Ticks

/-! ### Courses -/

theorem Course.append_iff {before after : List (List Sent)} : Course sent (before ++ after) ↔
    Course sent before ∧ Course (sent ++ before.flatten) after := by
  induction before generalizing sent with
  | nil =>
    rw [List.nil_append, List.flatten_nil, List.append_nil]
    exact ⟨fun h => ⟨.nil, h⟩, And.right⟩
  | cons round before ih =>
    rw [List.cons_append, List.flatten_cons, ← List.append_assoc]
    constructor
    · rintro (_ | ⟨first, later⟩)
      exact ⟨.cons first (ih.mp later).1, (ih.mp later).2⟩
    · rintro ⟨_ | ⟨first, later⟩, hafter⟩
      exact .cons first (ih.mpr ⟨later, hafter⟩)

/-- A round sends no report unless a session is alive. -/
theorem Round.alive_of_report {before after : List Sent}
    (h : Round sent (before ++ .report items b :: after)) : Alive (sent ++ before) := by
  generalize heq : before ++ .report items b :: after = round at h
  cases h with
  | failed =>
    rcases List.append_eq_singleton_iff.mp heq with ⟨-, heq⟩ | ⟨-, heq⟩ <;> cases heq
  | opened start opens =>
    rcases List.append_eq_cons_iff.mp heq with ⟨-, hfirst⟩ | ⟨rest, rfl, hlast⟩
    · cases hfirst
    · rcases List.append_eq_singleton_iff.mp hlast.symm with ⟨rfl, -⟩ | ⟨-, hnone⟩
      · exact alive_discovery.mpr opens
      · cases hnone
  | again start =>
    rcases List.append_eq_singleton_iff.mp heq with ⟨rfl, -⟩ | ⟨-, heq⟩
    · rwa [List.append_nil]
    · cases heq

/-- A course sends no report unless a session is alive. -/
theorem Course.alive_of_report (h : Course sent rounds) {before after : List Sent}
    (heq : rounds.flatten = before ++ .report items b :: after) : Alive (sent ++ before) := by
  induction h generalizing before with
  | nil => exact absurd heq (by simp)
  | @cons sent round rounds first _ ih =>
    rw [List.flatten_cons] at heq
    rcases List.append_eq_append_iff.mp heq with ⟨rest, rfl, hrest⟩ | ⟨rest, rfl, hrest⟩
    · rw [← List.append_assoc]
      exact ih hrest
    · cases rest with
      | nil =>
        have hlater := @ih [] hrest.symm
        rwa [List.append_nil, List.append_nil] at hlater
      | cons x rest =>
        cases hrest
        exact first.alive_of_report

/-- **No report without a session.** Whatever responds, and however the demand changes, a number of
ticks send as many rounds of requests:

* In each round there is a discovery alone, a discovery with a report behind it, or a report alone. A
  report holds the demand as it was looked at right before it was sent.
* A report is sent only while a session is alive: the last discovery has opened it, and all reports
  since then have been accepted.
* When something has failed in a round, the next one starts with a discovery, and only then. -/
theorem reports_in_session {σ : Type} (answer : (q : Question) → σ → Answer q × σ) (c : Client)
    (n : Nat) (st : σ) : ∃ rounds, rounds.length = n ∧
      (∀ k ≤ n, (ticks c none k).log answer st =
        (rounds.take k).flatten.flatMap (Sent.asked c)) ∧
      (∀ round ∈ rounds, (∃ a, round = [.discovery a]) ∨
        (∃ a items b, round = [.discovery a, .report items b]) ∨
        ∃ items b, round = [.report items b]) ∧
      (∀ before items b after, rounds.flatten = before ++ .report items b :: after →
        Alive before) ∧
      ∀ before this next after, rounds = before ++ this :: next :: after →
        ((∃ a, next.head? = some (.discovery a)) ↔ ∃ x ∈ this, ¬x.Succeeds) := by
  obtain ⟨rounds, hlength, hcourse, hlog⟩ :=
    ticks_course answer (c := c) (keeps_none not_alive_nil) n st
  refine ⟨rounds, hlength, hlog, fun round hround => ?_, ?_, ?_⟩
  · obtain ⟨before, after, rfl⟩ := List.append_of_mem hround
    obtain ⟨-, _ | ⟨first, -⟩⟩ := Course.append_iff.mp hcourse
    cases first with
    | failed => exact .inl ⟨_, rfl⟩
    | opened => exact .inr (.inl ⟨_, _, _, rfl⟩)
    | again => exact .inr (.inr ⟨_, _, rfl⟩)
  · intro before items b after heq
    exact hcourse.alive_of_report heq
  · rintro before this next after rfl
    obtain ⟨-, _ | ⟨hthis, _ | ⟨hnext, -⟩⟩⟩ := Course.append_iff.mp hcourse
    rw [hnext.head?_eq_discovery_iff, hthis.alive_iff]
    simp only [not_forall, exists_prop]

end Reporter

end NodeLending
