import NodeLending.Proofs.Json.Messages
import NodeLending.Proofs.Json.Source

/-!
# Everything on the wire is read back

Each type that parties and the pool exchange is written lawfully, so all its values are read back
from their texts. The other way round many texts have the same value: fields come in any order,
unknown ones are passed over, a record may be an array, and some fields may be left out. From
whichever text a value was read, the names in it are strings of that text and safe, and what is
written for the value is read as the value again.

## Main definitions

* `WireKind`: the types that are exchanged, with their values and the names in them.

## Main results

* `WireKind.read_back`: values are read back, and what has been read can be written.
-/

namespace NodeLending

open Json

/-- The types whose values are exchanged. -/
inductive WireKind where
  /-- Who sends a message. -/
  | fingerprint
  /-- The question what the pool offers. -/
  | discoverRequest
  /-- What the pool offers. -/
  | discoverResponse
  /-- One piece of demand. -/
  | workloadItem
  /-- The demand of a party. -/
  | reportRequest
  /-- The answer to a report. -/
  | reportResponse
  /-- How the work on a node ended. -/
  | returnStatus
  /-- A node that is given back. -/
  | returnRequest
  /-- Whether a node is there. -/
  | nodeState
  /-- Whether a run is there. -/
  | runState
  /-- The question whether the pool has a node. -/
  | nodeStatusRequest
  /-- Whether the pool has the node. -/
  | nodeStatusResponse
  /-- The question whether a reservation is live. -/
  | runStatusRequest
  /-- Whether the reservation is live. -/
  | runStatusResponse
  /-- The name of a node. -/
  | nodeName
  /-- The name of a party. -/
  | partyName
  /-- The number of a reservation. -/
  | reservationId
  deriving DecidableEq, Repr

/-- Presences are written as numbers; `type` names what was asked for. -/
@[reducible] def Presence.codec (type : String) : Codec Presence := ⟨Presence.encode, Presence.decoder type⟩

theorem Presence.codec_lawful (type : String) :
    @Codec.Lawful Presence (Presence.codec type) :=
  @Codec.Lawful.mk _ (Presence.codec type) Presence.plain_encode (Presence.decoder_encode type)

/-! ### Names in messages -/

/-- The name that a fingerprint carries. -/
def Fingerprint.names (f : Fingerprint) : List String := [f.party.text]

/-- The name that a piece of demand carries. -/
def WorkloadItem.names (i : WorkloadItem) : List String := [i.owner.text]

/-- The names that a report carries. -/
def ReportRequest.names (r : ReportRequest) : List String :=
  r.fingerprint.names ++ r.items.flatMap WorkloadItem.names

namespace Json.Decoder.Draws

theorem fingerprint : (Codec.decoder : Decoder Fingerprint).Draws Fingerprint.names := by
  refine .record (fun get f h n hn => ?_) _ _
  simp only [Fingerprint.fields, Fields.build_seq, Fields.build_map, Fields.build_required] at h
  obtain ⟨_, ⟨_, ⟨repository, -, rfl⟩, version, -, rfl⟩, party, ⟨o, ho, hparty⟩, rfl⟩ := h
  exact ⟨_, o, ho, Draws.name .party o party hparty n hn⟩

/-- A record whose first field is a fingerprint, without names in its other fields. -/
theorem of_fingerprint {α : Type} {fields : Fields α} {sender : α → Fingerprint}
    (h : ∀ get a, fields.build get = .ok a →
      ∃ o, get "fingerprint" = some o ∧ Codec.decoder o = .ok (sender a))
    (name : String) (strict : Bool) :
    (Json.record name strict fields).Draws fun a => (sender a).names := by
  refine .record (fun get a hbuild n hn => ?_) name strict
  obtain ⟨o, ho, hsender⟩ := h get a hbuild
  exact ⟨_, o, ho, fingerprint o _ hsender n hn⟩

theorem discoverRequest :
    (Codec.decoder : Decoder DiscoverRequest).Draws fun r => r.fingerprint.names := by
  refine of_fingerprint (fun get r h => ?_) _ _
  simp only [Fields.build_map, Fields.build_required] at h
  obtain ⟨f, ⟨o, ho, hf⟩, rfl⟩ := h
  exact ⟨o, ho, hf⟩

theorem workloadItem : (Codec.decoder : Decoder WorkloadItem).Draws WorkloadItem.names := by
  refine .record (fun get i h n hn => ?_) _ _
  simp only [Fields.build_seq, Fields.build_map, Fields.build_required] at h
  obtain ⟨_, ⟨_, ⟨id, -, rfl⟩, label, -, rfl⟩, owner, ⟨o, ho, howner⟩, rfl⟩ := h
  exact ⟨_, o, ho, Draws.name .party o owner howner n hn⟩

theorem reportRequest : (Codec.decoder : Decoder ReportRequest).Draws ReportRequest.names := by
  refine .record (fun get r h n hn => ?_) _ _
  simp only [Fields.build_seq, Fields.build_map, Fields.build_required,
    Fields.build_defaulted] at h
  obtain ⟨_, ⟨f, ⟨o, ho, hf⟩, rfl⟩, items, hitems, rfl⟩ := h
  rcases List.mem_append.mp hn with hn | hn
  · exact ⟨_, o, ho, fingerprint o f hf n hn⟩
  · rcases hitems with ⟨o', ho', hread⟩ | ⟨-, rfl⟩
    · exact ⟨_, o', ho', workloadItem.list o' items hread n hn⟩
    · cases hn

theorem returnRequest :
    (Codec.decoder : Decoder ReturnRequest).Draws fun r => r.fingerprint.names := by
  refine of_fingerprint (fun get r h => ?_) _ _
  simp only [Fields.build_seq, Fields.build_map, Fields.build_required] at h
  obtain ⟨_, ⟨_, ⟨f, ⟨o, ho, hf⟩, rfl⟩, node, -, rfl⟩, status, -, rfl⟩ := h
  exact ⟨o, ho, hf⟩

theorem nodeStatusRequest :
    (Codec.decoder : Decoder NodeStatusRequest).Draws fun r => r.fingerprint.names := by
  refine of_fingerprint (fun get r h => ?_) _ _
  simp only [Fields.build_seq, Fields.build_map, Fields.build_required] at h
  obtain ⟨_, ⟨f, ⟨o, ho, hf⟩, rfl⟩, node, -, rfl⟩ := h
  exact ⟨o, ho, hf⟩

theorem runStatusRequest :
    (Codec.decoder : Decoder RunStatusRequest).Draws fun r => r.fingerprint.names := by
  refine of_fingerprint (fun get r h => ?_) _ _
  simp only [Fields.build_seq, Fields.build_map, Fields.build_required] at h
  obtain ⟨_, ⟨f, ⟨o, ho, hf⟩, rfl⟩, run, -, rfl⟩ := h
  exact ⟨o, ho, hf⟩

end Json.Decoder.Draws

/-! ### All that is exchanged -/

namespace WireKind

/-- The values of a kind. -/
def Carrier : WireKind → Type
  | fingerprint => Fingerprint
  | discoverRequest => DiscoverRequest
  | discoverResponse => DiscoverResponse
  | workloadItem => WorkloadItem
  | reportRequest => ReportRequest
  | reportResponse => ReportResponse
  | returnStatus => ReturnStatus
  | returnRequest => ReturnRequest
  | nodeState | runState => Presence
  | nodeStatusRequest => NodeStatusRequest
  | nodeStatusResponse => NodeStatusResponse
  | runStatusRequest => RunStatusRequest
  | runStatusResponse => RunStatusResponse
  | nodeName => NodeName
  | partyName => PartyName
  | reservationId => ReservationId

/-- How the values of a kind are written and read. -/
@[reducible] def codec : (k : WireKind) → Codec k.Carrier
  | fingerprint => inferInstanceAs (Codec Fingerprint)
  | discoverRequest => inferInstanceAs (Codec DiscoverRequest)
  | discoverResponse => inferInstanceAs (Codec DiscoverResponse)
  | workloadItem => inferInstanceAs (Codec WorkloadItem)
  | reportRequest => inferInstanceAs (Codec ReportRequest)
  | reportResponse => inferInstanceAs (Codec ReportResponse)
  | returnStatus => inferInstanceAs (Codec ReturnStatus)
  | returnRequest => inferInstanceAs (Codec ReturnRequest)
  | nodeState => Presence.codec Presence.ofNode
  | runState => Presence.codec Presence.ofRun
  | nodeStatusRequest => inferInstanceAs (Codec NodeStatusRequest)
  | nodeStatusResponse => inferInstanceAs (Codec NodeStatusResponse)
  | runStatusRequest => inferInstanceAs (Codec RunStatusRequest)
  | runStatusResponse => inferInstanceAs (Codec RunStatusResponse)
  | nodeName => inferInstanceAs (Codec NodeName)
  | partyName => inferInstanceAs (Codec PartyName)
  | reservationId => inferInstanceAs (Codec ReservationId)

instance (k : WireKind) : Codec k.Carrier := k.codec

/-- The texts of the typed names in a value, in the order of its fields. -/
def names : (k : WireKind) → k.Carrier → List String
  | fingerprint => Fingerprint.names
  | discoverRequest => fun r => r.fingerprint.names
  | workloadItem => WorkloadItem.names
  | reportRequest => ReportRequest.names
  | returnRequest => fun r => r.fingerprint.names
  | nodeStatusRequest => fun r => r.fingerprint.names
  | runStatusRequest => fun r => r.fingerprint.names
  | nodeName => fun n => [n.text]
  | partyName => fun n => [n.text]
  | discoverResponse | reportResponse | returnStatus | nodeState | runState
  | nodeStatusResponse | runStatusResponse | reservationId => fun _ => []

variable (k : WireKind)

/-- Every kind is written lawfully. -/
instance : Codec.Lawful k.Carrier := by
  cases k with
  | fingerprint => exact inferInstanceAs (Codec.Lawful Fingerprint)
  | discoverRequest => exact inferInstanceAs (Codec.Lawful DiscoverRequest)
  | discoverResponse => exact inferInstanceAs (Codec.Lawful DiscoverResponse)
  | workloadItem => exact inferInstanceAs (Codec.Lawful WorkloadItem)
  | reportRequest => exact inferInstanceAs (Codec.Lawful ReportRequest)
  | reportResponse => exact inferInstanceAs (Codec.Lawful ReportResponse)
  | returnStatus => exact inferInstanceAs (Codec.Lawful ReturnStatus)
  | returnRequest => exact inferInstanceAs (Codec.Lawful ReturnRequest)
  | nodeState => exact Presence.codec_lawful Presence.ofNode
  | runState => exact Presence.codec_lawful Presence.ofRun
  | nodeStatusRequest => exact inferInstanceAs (Codec.Lawful NodeStatusRequest)
  | nodeStatusResponse => exact inferInstanceAs (Codec.Lawful NodeStatusResponse)
  | runStatusRequest => exact inferInstanceAs (Codec.Lawful RunStatusRequest)
  | runStatusResponse => exact inferInstanceAs (Codec.Lawful RunStatusResponse)
  | nodeName => exact inferInstanceAs (Codec.Lawful NodeName)
  | partyName => exact inferInstanceAs (Codec.Lawful PartyName)
  | reservationId => exact inferInstanceAs (Codec.Lawful ReservationId)

/-- The names in what is read are strings of the text. -/
theorem draws_names : (Codec.decoder : Decoder k.Carrier).Draws k.names := by
  cases k with
  | fingerprint => exact Decoder.Draws.fingerprint
  | discoverRequest => exact Decoder.Draws.discoverRequest
  | workloadItem => exact Decoder.Draws.workloadItem
  | reportRequest => exact Decoder.Draws.reportRequest
  | returnRequest => exact Decoder.Draws.returnRequest
  | nodeStatusRequest => exact Decoder.Draws.nodeStatusRequest
  | runStatusRequest => exact Decoder.Draws.runStatusRequest
  | nodeName => exact Decoder.Draws.name .node
  | partyName => exact Decoder.Draws.name .party
  | discoverResponse | reportResponse | returnStatus | nodeState | runState
  | nodeStatusResponse | runStatusResponse | reservationId => exact Decoder.Draws.none _

/-- The names in a value are safe. -/
theorem check_of_mem_names (v : k.Carrier) : ∀ n ∈ k.names v, Name.check n = .ok () := by
  have hfingerprint : ∀ f : Fingerprint, ∀ n ∈ f.names, Name.check n = .ok () := fun f n hn =>
    List.mem_singleton.mp hn ▸ f.party.safe
  have hitem : ∀ i : WorkloadItem, ∀ n ∈ i.names, Name.check n = .ok () := fun i n hn =>
    List.mem_singleton.mp hn ▸ i.owner.safe
  cases k with
  | fingerprint => exact hfingerprint v
  | discoverRequest => exact hfingerprint v.fingerprint
  | workloadItem => exact hitem v
  | reportRequest =>
    intro n hn
    rcases List.mem_append.mp hn with hn | hn
    · exact hfingerprint v.fingerprint n hn
    · obtain ⟨i, -, hn⟩ := List.mem_flatMap.mp hn
      exact hitem i n hn
  | returnRequest => exact hfingerprint v.fingerprint
  | nodeStatusRequest => exact hfingerprint v.fingerprint
  | runStatusRequest => exact hfingerprint v.fingerprint
  | nodeName | partyName => exact fun n hn => List.mem_singleton.mp hn ▸ v.safe
  | discoverResponse | reportResponse | returnStatus | nodeState | runState
  | nodeStatusResponse | runStatusResponse | reservationId => exact fun n hn => nomatch hn

/-- **What is on the wire is read back.** Every value of every kind is read back from what is
written for it. From whichever text a value has been read, the names in it stand in that text and
are safe, and the value is read again from what is written for it. -/
theorem read_back :
    (∀ v : k.Carrier, read (write v) = .ok v) ∧
    ∀ (s : String) (v : k.Carrier), read s = .ok v →
      (∀ n ∈ k.names v, (Document.read s).outline.Holds n ∧ Name.check n = .ok ()) ∧
      read (write v) = .ok v := by
  refine ⟨Codec.Lawful.read_write, fun s v h => ⟨fun n hn => ⟨?_, ?_⟩, ?_⟩⟩
  · exact k.draws_names _ v (Decoder.decode_outline h) n hn
  · exact k.check_of_mem_names v n hn
  · exact Codec.Lawful.read_write v

end WireKind

/-- A report as an array, with the fields of its sender in another order, a field that nobody knows,
and no demand. -/
def Sample.bareReport : String :=
  "[\x7b\"version\": \"0.1.0\", \"extra\": [null, true], \"party_name\": \"ci\", " ++
    "\"config_repo_url\": \"r\"\x7d]"

/-- The request that the bare report is read as. -/
def Sample.bareRequest : ReportRequest := ⟨⟨"r", "0.1.0", ⟨"ci", by rfl⟩⟩, []⟩

theorem WireKind.read_back_bareReport :
    (Json.read Sample.bareReport : Except DecodeError reportRequest.Carrier) =
        .ok Sample.bareRequest ∧
      (Document.read Sample.bareReport).outline.Holds "ci" ∧ Name.check "ci" = .ok () ∧
      Json.read (write Sample.bareRequest) = .ok Sample.bareRequest := by
  have hread : (Json.read Sample.bareReport : Except DecodeError ReportRequest) =
      .ok Sample.bareRequest := by rfl
  obtain ⟨hnames, hagain⟩ :=
    (read_back .reportRequest).2 Sample.bareReport Sample.bareRequest hread
  obtain ⟨hholds, hsafe⟩ := hnames "ci" List.mem_cons_self
  exact ⟨hread, hholds, hsafe, hagain⟩

end NodeLending
