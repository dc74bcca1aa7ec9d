import NodeLending.Fingerprint

/-!
# Messages between parties and a pool

A party discovers what the pool offers, reports its demand, gives nodes back and asks whether a
node or a reservation is known. Every request carries the fingerprint of its sender.

A node that is given back or asked for is named by an unchecked text: a text that is no name is
just a node that the pool does not have.

## Main definitions

* `DiscoverRequest`, `DiscoverResponse`, `WorkloadItem`, `ReportRequest`, `ReportResponse`,
  `ReturnStatus`, `ReturnRequest`, `Presence`, `NodeStatusRequest`, `NodeStatusResponse`,
  `RunStatusRequest`, `RunStatusResponse`.
-/

namespace NodeLending

open Json

/-! ### Discovery -/

/-- The question what the pool offers. -/
structure DiscoverRequest where
  /-- Who asks. -/
  fingerprint : Fingerprint
  deriving DecidableEq, Repr

/-- What the pool offers. -/
structure DiscoverResponse where
  /-- The version of the protocol that the pool speaks. -/
  version : String
  /-- The address of the pool that its repository declares. -/
  orchestratorUrl : String
  /-- The labels of the nodes in service, ascending. -/
  labels : List String
  /-- What is wrong with the pool. -/
  diagnosis : Option String
  deriving DecidableEq, Repr

instance : Codec DiscoverRequest where
  encode r := .object [("fingerprint", encode r.fingerprint)]
  decoder := record "DiscoverRequest" false
    (DiscoverRequest.mk <$> .required "fingerprint" Codec.decoder)

instance : Codec DiscoverResponse where
  encode r := .object ([
    ("version", .string r.version),
    ("orchestrator_url", .string r.orchestratorUrl),
    ("labels", .array (r.labels.map .string))] ++
    optional "diagnosis" (r.diagnosis.map .string))
  decoder := record "DiscoverResponse" false
    (DiscoverResponse.mk <$> .required "version" Decoder.string
      <*> .required "orchestrator_url" Decoder.string
      <*> .required "labels" Decoder.string.list
      <*> .defaulted "diagnosis" Decoder.string.option none)

/-! ### Demand -/

/-- One piece of demand in the queue of a party. -/
structure WorkloadItem where
  /-- Its number in that queue. -/
  id : ReservationId
  /-- The label expression it asks for. -/
  label : String
  /-- The party it belongs to. -/
  owner : PartyName
  deriving DecidableEq, Repr

/-- The demand of a party, in the order of its queue. -/
structure ReportRequest where
  /-- Who reports. -/
  fingerprint : Fingerprint
  /-- The demand. -/
  items : List WorkloadItem
  deriving DecidableEq, Repr

/-- The answer to a report. -/
structure ReportResponse where
  /-- How many items were recorded. -/
  accepted : UInt64
  deriving DecidableEq, Repr

instance : Codec WorkloadItem where
  encode i := .object [
    ("id", encode i.id), ("label", .string i.label), ("owner", encode i.owner)]
  decoder := record "WorkloadItem" false
    (WorkloadItem.mk <$> .required "id" Codec.decoder
      <*> .required "label" Decoder.string
      <*> .required "owner" Codec.decoder)

instance : Codec ReportRequest where
  encode r := .object [
    ("fingerprint", encode r.fingerprint), ("items", .array (r.items.map encode))]
  decoder := record "ReportWorkloadRequest" false
    (ReportRequest.mk <$> .required "fingerprint" Codec.decoder
      <*> .defaulted "items" (Decoder.list Codec.decoder) [])

instance : Codec ReportResponse where
  encode r := .object [("accepted", .word r.accepted)]
  decoder := record "ReportWorkloadResponse" false
    (ReportResponse.mk <$> .required "accepted" (Decoder.word "usize"))

/-! ### Nodes that are given back -/

/-- How the work on a node ended. -/
inductive ReturnStatus where
  /-- The work was done. -/
  | ok
  /-- The work failed. -/
  | failed
  deriving DecidableEq, Repr

/-- The word for how work ended. -/
def ReturnStatus.text : ReturnStatus → String
  | ok => "ok"
  | failed => "failed"

/-- A party gives a node back. -/
structure ReturnRequest where
  /-- Who gives it back. -/
  fingerprint : Fingerprint
  /-- The name that the party knows the node by. -/
  node : String
  /-- How the work on it ended. -/
  status : ReturnStatus
  deriving DecidableEq, Repr

instance : Codec ReturnStatus where
  encode s := .string s.text
  decoder := Decoder.choice ([ReturnStatus.ok, .failed].map fun s => (s.text, s))

instance : Codec ReturnRequest where
  encode r := .object [
    ("fingerprint", encode r.fingerprint),
    ("node_name", .string r.node),
    ("status", encode r.status)]
  decoder := record "ReturnNodeRequest" false
    (ReturnRequest.mk <$> .required "fingerprint" Codec.decoder
      <*> .required "node_name" Decoder.string
      <*> .required "status" Codec.decoder)

/-! ### Status -/

/-- Whether what was asked for is there; it is written as a number. -/
inductive Presence where
  /-- It is there. -/
  | found
  /-- It is not there. -/
  | notFound
  deriving DecidableEq, Repr

namespace Presence

/-- The presence of something that is or is not there. -/
def ofBool (b : Bool) : Presence := if b then found else notFound

/-- The number that stands for a presence. -/
def ordinal : Presence → Nat
  | found => 0
  | notFound => 1

/-- The presence that a number stands for; `type` names what was asked for. -/
def ofOrdinal (type : String) : Nat → Except String Presence
  | 0 => .ok found
  | 1 => .ok notFound
  | n => .error s!"invalid {type} ordinal {n}"

/-- The reader of a presence. -/
def decoder (type : String) : Decoder Presence :=
  (Decoder.natural 255 "u8").refine (ofOrdinal type)

/-- The written presence. -/
def encode (p : Presence) : Value := .nat p.ordinal

/-- What the presence of a node is called. -/
def ofNode : String := "NodeState"

/-- What the presence of a run is called. -/
def ofRun : String := "RunState"

end Presence

/-- The question whether the pool has a node. -/
structure NodeStatusRequest where
  /-- Who asks. -/
  fingerprint : Fingerprint
  /-- The name that the party knows the node by. -/
  node : String
  deriving DecidableEq, Repr

/-- Whether the pool has the node. -/
structure NodeStatusResponse where
  /-- The answer. -/
  state : Presence
  deriving DecidableEq, Repr

/-- The question whether a reservation is live. -/
structure RunStatusRequest where
  /-- Who asks. -/
  fingerprint : Fingerprint
  /-- The reservation. -/
  run : ReservationId
  deriving DecidableEq, Repr

/-- Whether the reservation is live. -/
structure RunStatusResponse where
  /-- The answer. -/
  state : Presence
  deriving DecidableEq, Repr

instance : Codec NodeStatusRequest where
  encode r := .object [("fingerprint", encode r.fingerprint), ("node_name", .string r.node)]
  decoder := record "NodeStatusRequest" false
    (NodeStatusRequest.mk <$> .required "fingerprint" Codec.decoder
      <*> .required "node_name" Decoder.string)

instance : Codec NodeStatusResponse where
  encode r := .object [("state", r.state.encode)]
  decoder := record "NodeStatusResponse" false
    (NodeStatusResponse.mk <$> .required "state" (Presence.decoder Presence.ofNode))

instance : Codec RunStatusRequest where
  encode r := .object [("fingerprint", encode r.fingerprint), ("run_id", encode r.run)]
  decoder := record "RunStatusRequest" false
    (RunStatusRequest.mk <$> .required "fingerprint" Codec.decoder
      <*> .required "run_id" Codec.decoder)

instance : Codec RunStatusResponse where
  encode r := .object [("state", r.state.encode)]
  decoder := record "RunStatusResponse" false
    (RunStatusResponse.mk <$> .required "state" (Presence.decoder Presence.ofRun))

end NodeLending
