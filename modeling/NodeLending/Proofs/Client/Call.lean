import NodeLending.Client.Session
import NodeLending.Proofs.Decode.Reading
import NodeLending.Proofs.Dialogue.Ensures

/-!
# What a call comes to

A call sends one request, and its result is a matter of the response, whoever responds. Here anything
may: the answers to a party come from anything with a state.

A refusal describes its problem in a JSON object, of which a party looks at two fields. A body that
is no such object, or that has something else in the place of a text, describes nothing.

## Main definitions

* `Client.Response.Describes`: the body of a response is an object with a text under a name.
* `Session.Settles`: how a node that is given back is settled by the response.

## Main results

* `Client.run_call`, `Client.log_call`: a call is one request.
* `Client.receive_eq_ok_iff`: which responses can be received.
* `Session.settles_iff`: what a response to a node that is given back says.
* `Session.returnNode_settles`: how giving a node back ends, and what is left to be cleaned up.
-/

namespace NodeLending

/-! ### Fields -/

namespace Json.Value

/-- Of the fields of a name the last one counts. -/
theorem field?_eq_some_iff {name : String} {v w : Value} : v.field? name = some w ↔
    ∃ before after, v = .object (before ++ (name, w) :: after) ∧ ∀ f ∈ after, f.1 ≠ name := by
  match v with
  | .null | .bool _ | .number _ | .string _ | .array _ => exact iff_of_false nofun nofun
  | .object fields =>
    rw [field?, Option.map_eq_some_iff]
    simp only [List.find?_eq_some_iff_append]
    constructor
    · rintro ⟨⟨name', w'⟩, ⟨hname, later, earlier, hfields, hlater⟩, rfl⟩
      obtain rfl := eq_of_beq hname
      refine ⟨earlier.reverse, later.reverse, congrArg object ?_, fun f hf => ?_⟩
      · simpa only [List.reverse_reverse, List.reverse_append, List.reverse_cons,
          List.append_assoc, List.singleton_append] using congrArg List.reverse hfields
      · simpa using hlater f (List.mem_reverse.mp hf)
    · rintro ⟨before, after, heq, hafter⟩
      cases heq
      refine ⟨(name, w), ⟨beq_self_eq_true name, after.reverse, before.reverse, ?_, fun f hf => ?_⟩,
        rfl⟩
      · simp only [List.reverse_append, List.reverse_cons, List.append_assoc, List.singleton_append]
      · simpa using hafter f (List.mem_reverse.mp hf)

theorem string?_eq_some_iff {v : Value} {s : String} : v.string? = some s ↔ v = .string s := by
  match v with
  | .string t => exact ⟨fun h => congrArg string (Option.some.inj h), fun h => congrArg string? h⟩
  | .null | .bool _ | .number _ | .array _ | .object _ => exact iff_of_false nofun nofun

end Json.Value

namespace Client

/-! ### Calls -/

section Calls

variable {σ α β : Type} [Json.Codec α] (answer : (q : Question) → σ → Answer q × σ) (c : Client)
  (e : Endpoint) (body : α) (read : Response → Except Error β) (s : σ)

/-- The result of a call, by the response to its request. -/
def received : Option Response → Except Error β
  | none => .error .transport
  | some r => read r

theorem run_call : (c.call e body read).run answer s =
    (received read (answer (.send (c.request e body)) s).1,
      (answer (.send (c.request e body)) s).2) := by
  rw [call, Dialogue.run_bind]
  simp only [send, Dialogue.run_ask, Dialogue.run_done]
  cases (answer (.send (c.request e body)) s).1 <;> rfl

theorem received_eq_ok_iff {read : Response → Except Error β} {a : Option Response} {b : β} :
    received read a = .ok b ↔ ∃ r, a = some r ∧ read r = .ok b := by
  cases a with
  | none => exact iff_of_false nofun nofun
  | some r => exact ⟨fun h => ⟨r, rfl, h⟩, fun ⟨_, heq, h⟩ => Option.some.inj heq ▸ h⟩

/-- A call is one request. -/
theorem log_call : (c.call e body read).log answer s =
    [⟨.send (c.request e body), (answer (.send (c.request e body)) s).1⟩] := by
  rw [call, Dialogue.log_bind]
  simp only [send, Dialogue.log, Dialogue.run_ask, Dialogue.run_done]
  cases (answer (.send (c.request e body)) s).1 <;> rfl

end Calls

/-! ### Responses -/

variable {r : Response}

theorem isSuccess_iff : r.isSuccess = true ↔ 200 ≤ r.status ∧ r.status < 300 := by
  rw [Response.isSuccess, Bool.and_eq_true, decide_eq_true_eq, decide_eq_true_eq]

/-- Success is received if its body can be read, and nothing else is. -/
theorem receive_eq_ok_iff {α : Type} [Json.Codec α] {a : α} :
    receive α r = .ok a ↔ r.isSuccess = true ∧ Json.read r.body = .ok a := by
  rw [receive, bind_eq_ok_iff]
  constructor
  · rintro ⟨body, hcheck, hread⟩
    rw [check] at hcheck
    split at hcheck
    · next hsuccess =>
      cases hcheck
      split at hread
      · next a' ha' => cases hread; exact ⟨hsuccess, ha'⟩
      · cases hread
    · split at hcheck <;> cases hcheck
  · rintro ⟨hsuccess, hread⟩
    exact ⟨r.body, if_pos hsuccess, by rw [hread]⟩

/-- The body of a response is an object whose field of a name is a text. Of several fields of the name
the last one counts. -/
def Response.Describes (r : Response) (name text : String) : Prop :=
  ∃ before after, Json.Value.read? r.body =
    some (.object (before ++ (name, .string text) :: after)) ∧ ∀ f ∈ after, f.1 ≠ name

theorem Response.describes_iff {name text : String} : r.Describes name text ↔
    (Json.Value.read? r.body >>= Json.Value.field? name >>= Json.Value.string?) = some text := by
  simp only [Option.bind_eq_bind, Option.bind_eq_some_iff, Json.Value.string?_eq_some_iff,
    Json.Value.field?_eq_some_iff]
  constructor
  · rintro ⟨before, after, hread, hafter⟩
    exact ⟨_, ⟨_, hread, before, after, rfl, hafter⟩, rfl⟩
  · rintro ⟨_, ⟨_, hread, before, after, rfl, hafter⟩, rfl⟩
    exact ⟨before, after, hread, hafter⟩

/-- What the refusal of a fingerprint gives as its reason: the detail of its problem, or else the
whole body. -/
theorem Response.getD_detail (r : Response) :
    let reason := ((Json.Value.read? r.body) >>= Json.Value.field? "detail" >>=
      Json.Value.string?).getD r.body
    r.Describes "detail" reason ∨ (∀ text, ¬r.Describes "detail" text) ∧ reason = r.body := by
  intro reason
  simp only [Response.describes_iff]
  cases hdetail : Json.Value.read? r.body >>= Json.Value.field? "detail" >>= Json.Value.string? with
  | none => exact .inr ⟨nofun, by simp only [reason, hdetail, Option.getD_none]⟩
  | some text => exact .inl (by simp only [reason, hdetail, Option.getD_some])

end Client

namespace Session

open Client

/-- How a node that is given back is settled, by the final response if there is one. -/
inductive Settles : Option Response → Except Error ReturnOutcome → Prop
  | lost : Settles none (.error .transport)
  | returned {r : Response} (least : 200 ≤ r.status) (most : r.status < 300) :
      Settles (some r) (.ok .returned)
  | gone {r : Response} (status : r.status = 404) (code : r.Describes "code" "node_not_found") :
      Settles (some r) (.ok .alreadyResolved)
  | refused {r : Response} {reason : String} (status : r.status = 409)
      (detail : r.Describes "detail" reason) :
      Settles (some r) (.error (.handshakeRejected reason))
  | refusedBare {r : Response} (status : r.status = 409)
      (detail : ∀ text, ¬r.Describes "detail" text) :
      Settles (some r) (.error (.handshakeRejected r.body))
  | unexpected {r : Response} (success : ¬(200 ≤ r.status ∧ r.status < 300))
      (conflict : r.status ≠ 409)
      (gone : ¬(r.status = 404 ∧ r.Describes "code" "node_not_found")) :
      Settles (some r) (.error (.unexpectedStatus r.status r.body))

/-- A node is settled in one way. -/
theorem Settles.unique {a : Option Response} {x y : Except Error ReturnOutcome} (hx : Settles a x)
    (hy : Settles a y) : x = y := by
  cases hx with
  | lost => cases hy; rfl
  | returned => cases hy <;> first | rfl | omega
  | gone status code =>
    cases hy with
    | gone => rfl
    | unexpected _ _ h => exact absurd ⟨status, code⟩ h
    | _ => omega
  | refused status detail =>
    rw [Response.describes_iff] at detail
    cases hy with
    | refused _ detail' =>
      rw [Response.describes_iff, detail] at detail'
      rw [Option.some.inj detail']
    | refusedBare _ h => exact absurd (Response.describes_iff.mpr detail) (h _)
    | _ => omega
  | refusedBare status h =>
    cases hy with
    | refused _ detail => exact absurd detail (h _)
    | refusedBare => rfl
    | _ => omega
  | unexpected success conflict h =>
    cases hy with
    | unexpected => rfl
    | gone status code => exact absurd ⟨status, code⟩ h
    | _ => omega

theorem settles_returnOutcome (r : Response) : Settles (some r) (returnOutcome r) := by
  have hcode : problemCode? r.body = some nodeNotFound ↔ r.Describes "code" "node_not_found" :=
    Response.describes_iff.symm
  rw [returnOutcome]
  split
  · next hstatus =>
    split
    · next hgone => exact .gone hstatus (hcode.mp hgone)
    · next hother => exact .unexpected (by omega) (by omega) fun h => hother (hcode.mpr h.2)
  · next hstatus =>
    rw [check]
    split
    · next hsuccess =>
      rw [isSuccess_iff] at hsuccess
      exact .returned hsuccess.1 hsuccess.2
    · next hsuccess =>
      rw [isSuccess_iff] at hsuccess
      split
      · next hconflict =>
        rcases r.getD_detail with hdetail | ⟨hnone, hreason⟩
        · exact .refused hconflict hdetail
        · rw [hreason]
          exact .refusedBare hconflict hnone
      · next hconflict => exact .unexpected hsuccess hconflict fun h => hstatus h.1

/-- What comes of a node that is given back, by the final response. -/
theorem settles_iff {a : Option Response} {x : Except Error ReturnOutcome} :
    received returnOutcome a = x ↔ Settles a x := by
  have hsettles : Settles a (received returnOutcome a) := by
    cases a with
    | none => exact .lost
    | some r => exact settles_returnOutcome r
  exact ⟨fun h => h ▸ hsettles, hsettles.unique⟩

/-- **How giving a node back ends.** Whatever responds, and with whatever status and body:

* One request is sent, and no other.
* The node is taken for returned on success only, and for gone on one answer only: nothing is found,
  and the body describes the problem that the pool does not have the node. A conflict is a refusal
  for the reason that it describes, and every other response is an error that holds all of it.
* Nothing is left to be cleaned up in the first two cases. Otherwise the error is passed on. -/
theorem returnNode_settles {σ : Type} (answer : (q : Question) → σ → Answer q × σ) (d : Disposal)
    (st : σ) :
    let asked := d.session.client.request .returnNode
      (ReturnRequest.mk d.session.client.fingerprint d.node.text d.status)
    let response := (answer (.send asked) st).1
    let outcome := ((d.session.returnNode d.node d.status).run answer st).1
    let disposed := (d.dispose.run answer st).1
    d.dispose.log answer st = [⟨.send asked, response⟩] ∧
      (∀ x, outcome = x ↔ Settles response x) ∧
      (disposed = .ok .purged ↔ outcome = .ok .returned ∨ outcome = .ok .alreadyResolved) ∧
      ∀ err, disposed = .error err ↔ outcome = .error err := by
  intro asked response outcome disposed
  have houtcome : outcome = received returnOutcome response :=
    congrArg Prod.fst (run_call answer _ _ _ _ st)
  have hdisposed : disposed = outcome.map fun _ => .purged := by
    simp only [disposed, outcome, Disposal.dispose, Dialogue.run_bind, Dialogue.run_pure]
  refine ⟨?_, fun x => houtcome ▸ settles_iff, ?_, fun err => ?_⟩
  · rw [Disposal.dispose, Dialogue.log_bind]
    exact congrArg (· ++ []) (log_call answer _ _ _ _ st)
  · rw [hdisposed, map_eq_ok_iff]
    constructor
    · rintro ⟨result, hresult, -⟩
      cases result with
      | returned => exact .inl hresult
      | alreadyResolved => exact .inr hresult
    · rintro (hresult | hresult) <;> exact ⟨_, hresult, rfl⟩
  · rw [hdisposed, map_eq_error_iff]

end Session

end NodeLending
