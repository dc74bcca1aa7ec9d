import NodeLending.Message
import NodeLending.Proofs.Json.Records

/-!
# Messages are read as they were written

Whatever a party or a pool writes, the other one reads back the same message: every text, every name,
every number of 64 bits, and lists in their order.

## Main results

* The instances of `Json.Codec.Lawful` for all messages.
-/

namespace NodeLending

open Json Codec.Lawful
open Json.Fields (Builds)

instance : Codec.Lawful Fingerprint where
  plain f := .object (by
    simp only [List.forall_mem_cons]
    exact ⟨.string _, .string _, plain f.party, List.forall_mem_nil _⟩)
  decode := fun ⟨repository, version, party⟩ =>
    have hrepository := Builds.of_required rfl (decode_string repository)
    record_object (by decide) (.refl _)
      (((hrepository.map Fingerprint.mk).seq (.of_required rfl (decode_string version))).seq
        (.of_required rfl (decode party)))

/-! ### Discovery -/

instance : Codec.Lawful DiscoverRequest where
  plain r := .object (List.forall_mem_singleton.mpr (plain r.fingerprint))
  decode := fun ⟨fingerprint⟩ =>
    record_object (by decide) (.refl _)
      ((Builds.of_required rfl (decode fingerprint)).map DiscoverRequest.mk)

instance : Codec.Lawful DiscoverResponse where
  plain := by
    rintro ⟨version, url, labels, diagnosis⟩
    have hlabels := plain_array Value.Plain.string labels
    refine .object ?_
    cases diagnosis with
    | none =>
      simp only [Json.optional, Option.map_none, List.append_nil, List.forall_mem_cons]
      exact ⟨.string _, .string _, hlabels, List.forall_mem_nil _⟩
    | some text =>
      simp only [Json.optional, Option.map_some, List.cons_append, List.nil_append,
        List.forall_mem_cons]
      exact ⟨.string _, .string _, hlabels, .string _, List.forall_mem_nil _⟩
  decode := by
    rintro ⟨version, url, labels, diagnosis⟩
    have hlabels : Decoder.string.list (Value.array (labels.map .string)).outline = .ok labels :=
      decode_list fun s _ => decode_string s
    cases diagnosis with
    | none =>
      exact
        have hversion := Builds.of_required rfl (decode_string version)
        have hurl := Builds.of_required rfl (decode_string url)
        record_object (by decide) (List.sublist_append_left [_, _, _] [_])
          ((((hversion.map DiscoverResponse.mk).seq hurl).seq (.of_required rfl hlabels)).seq
            (.of_defaulted (.inr ⟨rfl, rfl⟩)))
    | some text =>
      exact
        have hversion := Builds.of_required rfl (decode_string version)
        have hurl := Builds.of_required rfl (decode_string url)
        record_object (by decide) (.refl _)
          ((((hversion.map DiscoverResponse.mk).seq hurl).seq (.of_required rfl hlabels)).seq
            (.of_defaulted (.inl ⟨.string text, rfl, rfl⟩)))

/-! ### Demand -/

instance : Codec.Lawful WorkloadItem where
  plain i := .object (by
    simp only [List.forall_mem_cons]
    exact ⟨plain i.id, .string _, plain i.owner, List.forall_mem_nil _⟩)
  decode := fun ⟨id, label, owner⟩ =>
    have hid := Builds.of_required rfl (decode id)
    record_object (by decide) (.refl _)
      (((hid.map WorkloadItem.mk).seq (.of_required rfl (decode_string label))).seq
        (.of_required rfl (decode owner)))

instance : Codec.Lawful ReportRequest where
  plain r := .object (by
    simp only [List.forall_mem_cons]
    exact ⟨plain r.fingerprint, plain_array plain r.items, List.forall_mem_nil _⟩)
  decode := fun ⟨fingerprint, items⟩ =>
    have hfingerprint := Builds.of_required rfl (decode fingerprint)
    have hitems := decode_list fun (i : WorkloadItem) (_ : i ∈ items) => decode i
    record_object (by decide) (.refl _)
      ((hfingerprint.map ReportRequest.mk).seq (.of_defaulted (.inl ⟨_, rfl, hitems⟩)))

instance : Codec.Lawful ReportResponse where
  plain r := .object (List.forall_mem_singleton.mpr (plain_word r.accepted))
  decode := fun ⟨accepted⟩ =>
    record_object (by decide) (.refl _)
      ((Builds.of_required rfl (decode_word "usize" accepted)).map ReportResponse.mk)

/-! ### Nodes that are given back -/

instance : Codec.Lawful ReturnStatus where
  plain s := .string s.text
  decode s := by cases s <;> rfl

instance : Codec.Lawful ReturnRequest where
  plain r := .object (by
    simp only [List.forall_mem_cons]
    exact ⟨plain r.fingerprint, .string _, plain r.status, List.forall_mem_nil _⟩)
  decode := fun ⟨fingerprint, node, status⟩ =>
    have hfingerprint := Builds.of_required rfl (decode fingerprint)
    record_object (by decide) (.refl _)
      (((hfingerprint.map ReturnRequest.mk).seq (.of_required rfl (decode_string node))).seq
        (.of_required rfl (decode status)))

/-! ### Status -/

namespace Presence

/-- The number of a presence stands for it. -/
theorem ofOrdinal_ordinal (type : String) (p : Presence) : ofOrdinal type p.ordinal = .ok p := by
  cases p <;> rfl

theorem plain_encode (p : Presence) : p.encode.Plain := by
  cases p <;> exact .integer (by decide) (by decide)

theorem decoder_encode (type : String) (p : Presence) : decoder type p.encode.outline = .ok p := by
  have hbound : p.ordinal ≤ 255 := by cases p <;> decide
  exact decode_refine (decode_nat "u8" hbound) (ofOrdinal_ordinal type p)

end Presence

instance : Codec.Lawful NodeStatusRequest where
  plain r := .object (by
    simp only [List.forall_mem_cons]
    exact ⟨plain r.fingerprint, .string _, List.forall_mem_nil _⟩)
  decode := fun ⟨fingerprint, node⟩ =>
    have hfingerprint := Builds.of_required rfl (decode fingerprint)
    record_object (by decide) (.refl _)
      ((hfingerprint.map NodeStatusRequest.mk).seq (.of_required rfl (decode_string node)))

instance : Codec.Lawful NodeStatusResponse where
  plain r := .object (List.forall_mem_singleton.mpr r.state.plain_encode)
  decode := fun ⟨state⟩ =>
    record_object (by decide) (.refl _)
      ((Builds.of_required rfl (state.decoder_encode _)).map NodeStatusResponse.mk)

instance : Codec.Lawful RunStatusRequest where
  plain r := .object (by
    simp only [List.forall_mem_cons]
    exact ⟨plain r.fingerprint, plain r.run, List.forall_mem_nil _⟩)
  decode := fun ⟨fingerprint, run⟩ =>
    have hfingerprint := Builds.of_required rfl (decode fingerprint)
    record_object (by decide) (.refl _)
      ((hfingerprint.map RunStatusRequest.mk).seq (.of_required rfl (decode run)))

instance : Codec.Lawful RunStatusResponse where
  plain r := .object (List.forall_mem_singleton.mpr r.state.plain_encode)
  decode := fun ⟨state⟩ =>
    record_object (by decide) (.refl _)
      ((Builds.of_required rfl (state.decoder_encode _)).map RunStatusResponse.mk)

end NodeLending
