import NodeLending.Proofs.Client.Network
import NodeLending.Proofs.Text.Trimming
import NodeLending.Proofs.Url.Segments

/-!
# Namespaces as path segments

A namespace ends with the beginning of a digest. The digest is written down in full, and a number of
bytes is cut off the front of its text. In an arbitrary text such a cut can fall beyond the end or
into a character. The digits of a digest are one byte each and there are sixty-four of them, so the
cut falls between two digits.

What comes out is made of letters, digits and a hyphen. It is a safe name, and in a path it is one
segment: the segment that the pool takes for the namespace, and the one that a party asks for.

## Main definitions

* `Text.firstBytes?`: the beginning of a text with a number of bytes.

## Main results

* `Text.firstBytes?_eq_some_iff`: when there is such a beginning.
* `Namespace.firstBytes?_digest`: what is cut off a digest.
* `Namespace.check_text`: a namespace is a safe name.
* `Namespace.segments_path`: what a URL makes of the path of an endpoint.
* `Namespace.single_segment`: a namespace is one segment of every path that it is put into.
-/

namespace NodeLending

namespace Text

/-- The beginning of a text with a number of bytes. There is none when the text has fewer bytes, or
when the bytes end within a character. -/
def firstBytes? (n : Nat) (s : String) : Option String :=
  if h : (⟨n⟩ : String.Pos.Raw).IsValid s then some (s.sliceTo ⟨⟨n⟩, h⟩).copy else none

theorem firstBytes?_eq_some_iff {n : Nat} {s front : String} :
    firstBytes? n s = some front ↔ ∃ back, s = front ++ back ∧ n = front.utf8ByteSize := by
  constructor
  · intro h
    rw [firstBytes?] at h
    split at h
    next hvalid =>
      cases h
      have hsplits := (⟨⟨n⟩, hvalid⟩ : s.Pos).splits
      exact ⟨_, hsplits.eq_append, congrArg String.Pos.Raw.byteIdx hsplits.offset_eq_rawEndPos⟩
    next => cases h
  · rintro ⟨back, rfl, rfl⟩
    have hvalid : front.rawEndPos.IsValid (front ++ back) :=
      String.Pos.Raw.isValid_iff_exists_append.mpr ⟨front, back, rfl, rfl⟩
    have hsplits : (⟨_, hvalid⟩ : (front ++ back).Pos).Splits front back := ⟨rfl, rfl⟩
    exact (dif_pos hvalid).trans (congrArg some hsplits.copy_sliceTo_eq)

end Text

/-! ### The digits of a digest -/

namespace Namespace

/-- The digits that end a namespace. -/
def digits (location : String) : String :=
  Text.hex ((Digest.sha256 (Text.utf8 location)).take digestBytes)

variable {location : String}

theorem mem_digits {c : Char} (h : c ∈ (digits location).toList) :
    c ∈ "0123456789abcdef".toList := by
  rw [digits, Text.hex, String.toList_ofList] at h
  exact Text.mem_hexDigits h

theorem mem_text_of_mem_digits {c : Char} (h : c ∈ (digits location).toList) :
    c ∈ (ofRepository location).text.toList := by
  rw [ofRepository, String.toList_append]
  exact List.mem_append_right _ h

theorem length_digits (location : String) : (digits location).toList.length = 8 := by
  rw [digits, Text.hex, String.toList_ofList, Text.length_hexDigits, List.length_take,
    Digest.length_sha256]
  rfl

/-- The first eight bytes of a digest that is written in full are the digits of the namespace. -/
theorem firstBytes?_digest (location : String) :
    Text.firstBytes? 8 (Text.hex (Digest.sha256 (Text.utf8 location))) = some (digits location) := by
  refine Text.firstBytes?_eq_some_iff.mpr
    ⟨Text.hex ((Digest.sha256 (Text.utf8 location)).drop digestBytes), ?_, ?_⟩
  · rw [digits, ← Text.hex_append, List.take_append_drop]
  · have hascii : ∀ c ∈ (digits location).toList, c.toNat < 0x80 :=
      fun c hc => (plain_of_mem (mem_text_of_mem_digits hc)).2.2.2
    rw [Text.utf8ByteSize_of_ascii hascii, length_digits]

/-! ### Namespaces are safe names -/

theorem safe_of_mem {c : Char} (h : c ∈ (ofRepository location).text.toList) :
    Text.isBlank c = false ∧ Name.isForbidden c = false ∧ c ≠ '.' :=
  of_mem h (by decide)

/-- A namespace is a safe name. -/
theorem check_text (location : String) : Name.check (ofRepository location).text = .ok () := by
  have htrim : Text.trimChars (ofRepository location).text.toList =
      (ofRepository location).text.toList :=
    Text.trimChars_of_forall fun c hc => (safe_of_mem hc).1
  have hpoint : '.' ∉ (ofRepository location).text.toList := fun h => (safe_of_mem h).2.2 rfl
  refine Name.check_eq_ok_iff.mpr ⟨?_, htrim, ⟨?_, ?_⟩, fun c hc => (safe_of_mem hc).2.1⟩
  · rw [htrim, ofRepository, String.toList_append]
    exact List.append_ne_nil_of_left_ne_nil (by decide) _
  · exact fun h => hpoint (h ▸ List.mem_cons_self)
  · exact fun h => hpoint (h ▸ List.mem_cons_self)

/-! ### Namespaces in URLs -/

/-- A URL takes a namespace as it is. -/
theorem isPlainSegment_text (location : String) :
    Url.IsPlainSegment (ofRepository location).text := by
  obtain ⟨rest, hrest⟩ : ∃ rest, (ofRepository location).text.toList = 'n' :: rest :=
    ⟨_, by rw [ofRepository, String.toList_append]; rfl⟩
  refine ⟨List.all_eq_true.mpr fun c hc => of_mem hc (by decide), ?_, ?_⟩
  · rw [hrest]
    simp [Url.isSingleDot]
  · rw [hrest]
    simp [Url.isDoubleDot]

theorem isPlainSegment_segment (e : Endpoint) : Url.IsPlainSegment e.segment := by
  constructor <;> cases e <;> decide

/-- In a URL the path of an endpoint has two segments, the namespace and the endpoint. -/
theorem segments_path (location : String) (e : Endpoint) (special : Bool) :
    Url.segments special ((ofRepository location).path e).toList =
      [(ofRepository location).text, e.segment] := by
  have hplain : ∀ s ∈ [(ofRepository location).text, e.segment], Url.IsPlainSegment s :=
    List.forall_mem_cons.mpr
      ⟨isPlainSegment_text location, List.forall_mem_singleton.mpr (isPlainSegment_segment e)⟩
  rw [path_eq_text, Url.segments_text special hplain]

/-- What a party puts behind the folder has no scheme. -/
theorem scheme?_relative (location : String) (e : Endpoint) :
    Url.scheme? ((ofRepository location).text ++ "/" ++ e.segment).toList = none := by
  have hscheme : ∀ c ∈ (ofRepository location).text.toList, Url.isSchemeChar c = true :=
    fun c hc => of_mem hc (by decide)
  rw [String.toList_append, String.toList_append, List.append_assoc]
  exact Url.scheme?_eq_none hscheme _

/-- **A namespace is one safe segment of every path that it is put into.** For every location:

* Of its digest in hexadecimal the first eight bytes can be cut off. They are eight lower-case
  digits, and the namespace is made of them.
* The namespace is a safe name.
* The path of an endpoint is cut into nothing, the namespace and the endpoint, and what it is routed
  to is the endpoint in this namespace.
* In a URL this path has the same two segments, and without its slash in front it has no scheme that
  would keep it from being relative.
* A party for the location asks for the same path, below the folder that it reaches the pool
  under. -/
theorem single_segment [Url.Idna] (location : String) :
    (∃ digits : String,
      Text.firstBytes? 8 (Text.hex (Digest.sha256 (Text.utf8 location))) = some digits ∧
      (ofRepository location).text = "nodesharing-" ++ digits ∧
      digits.toList.length = 8 ∧ ∀ c ∈ digits.toList, c ∈ "0123456789abcdef".toList) ∧
    Name.check (ofRepository location).text = .ok () ∧
    (∀ e : Endpoint,
      Text.splitOn '/' ((ofRepository location).path e) =
        ["", (ofRepository location).text, e.segment] ∧
      Api.Route.of? ((ofRepository location).path e) =
        some (.endpoint (ofRepository location).text e) ∧
      (∀ special, Url.segments special ((ofRepository location).path e).toList =
        [(ofRepository location).text, e.segment]) ∧
      Url.scheme? ((ofRepository location).text ++ "/" ++ e.segment).toList = none) ∧
    Api.Route.namespace? (ofRepository location).text = some (ofRepository location).text ∧
    ∀ (url : String) (party : PartyName) (c : Client), Client.of? url location party = .ok c →
      ∃ folder, c.base.path = .segments (folder ++ [""]) ∧
        ∀ (e : Endpoint) (m : e.Message), (c.request e m).path =
          (Url.Path.segments folder).text ++ (ofRepository location).path e := by
  refine ⟨⟨digits location, firstBytes?_digest location, rfl, length_digits location,
      fun c hc => mem_digits hc⟩, check_text location, fun e => ?_, namespace?_text location,
    fun url party c hc => ?_⟩
  · exact ⟨splitOn_path location e, route_path location e, segments_path location e,
      scheme?_relative location e⟩
  obtain ⟨rfl, folder, hfolder⟩ := Client.exists_folder hc
  exact ⟨folder, hfolder, Client.path_request_below hfolder⟩

end Namespace

namespace Sample

/-- The party, with an orchestrator behind a port and below a path. -/
def guest : Client :=
  ⟨⟨"http", "", "", some (.name "h"), some 81, .segments ["a", ""], none, none⟩, "r", party.name⟩

set_option maxRecDepth 8000 in
theorem of?_guest : Client.of? "http://h:81/a" "r" guest.party = .ok guest := by decide

end Sample

namespace Namespace

/-- Whoever reaches the pool below a path asks for the namespace below that path. -/
theorem single_segment_below_folder :
    Client.of? "http://h:81/a" "r" Sample.guest.party = .ok Sample.guest ∧
      ∀ (e : Endpoint) (m : e.Message),
        (Sample.guest.request e m).path = "/a" ++ (ofRepository "r").path e := by
  obtain ⟨-, -, -, -, hrequest⟩ := single_segment "r"
  obtain ⟨folder, hbase, hpath⟩ := hrequest _ _ _ Sample.of?_guest
  have hfolder : ["a"] ++ [""] = folder ++ [""] := Url.Path.segments.inj hbase
  refine ⟨Sample.of?_guest, fun e m => ?_⟩
  rw [hpath, ← List.append_cancel_right hfolder]
  rfl

end Namespace

end NodeLending
