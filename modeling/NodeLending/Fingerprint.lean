import NodeLending.Json.Codec

/-!
# Fingerprints

Every message carries a fingerprint: the repository that its sender was configured from, the
version of the protocol that the sender speaks, and the name of the sending party. A receiver
compares it with its own view. The version is compared first, because nothing else means the same
across versions.

## Main definitions

* `Fingerprint`, and `Fingerprint.verify`, the receiver's check.
* `HandshakeError`: why a fingerprint is not accepted.
-/

namespace NodeLending

/-- The version of the protocol. -/
def protocolVersion : String := "0.1.0"

/-- Who sends a message and on which terms. -/
structure Fingerprint where
  /-- The location of the sender's repository. -/
  repository : String
  /-- The version of the protocol that the sender speaks. -/
  version : String
  /-- The sending party. -/
  party : PartyName
  deriving DecidableEq, Repr

/-- Why a fingerprint is not accepted. -/
inductive HandshakeError where
  /-- The sender speaks another version. -/
  | version (expected actual : String)
  /-- The sender was configured from another repository. -/
  | repository (expected actual : String)
  deriving DecidableEq, Repr

/-- The wording of a handshake error. -/
def HandshakeError.message : HandshakeError → String
  | .version expected actual =>
    s!"protocol version mismatch: expected '{expected}', got '{actual}'"
  | .repository expected actual =>
    s!"config repository mismatch: expected '{expected}', got '{actual}'"

namespace Fingerprint

/-- The fingerprint of a party that speaks this version. -/
def ofParty (repository : String) (party : PartyName) : Fingerprint :=
  ⟨repository, protocolVersion, party⟩

/-- The check of a receiver with its own repository and version. -/
def verify (f : Fingerprint) (repository version : String) : Except HandshakeError Unit :=
  if f.version ≠ version then .error (.version version f.version)
  else if f.repository ≠ repository then .error (.repository repository f.repository)
  else .ok ()

open Json

/-- The fields of a fingerprint. -/
def fields : Fields Fingerprint :=
  Fingerprint.mk <$> .required "config_repo_url" Decoder.string
    <*> .required "version" Decoder.string
    <*> .required "party_name" Codec.decoder

instance : Codec Fingerprint where
  encode f := .object [
    ("config_repo_url", .string f.repository),
    ("version", .string f.version),
    ("party_name", encode f.party)]
  decoder := record "Fingerprint" false fields

/-- A fingerprint is accepted exactly when both the version and the repository agree. -/
theorem verify_eq_ok_iff {f : Fingerprint} {repository version : String} :
    f.verify repository version = .ok () ↔ f.version = version ∧ f.repository = repository := by
  rw [verify]
  split
  · simp_all
  · split <;> simp_all

end Fingerprint

end NodeLending
