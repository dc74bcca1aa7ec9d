import NodeLending.Proofs.Text.Cutting
import NodeLending.Url.Parse

/-!
# Paths of plain segments

When a path is read, some characters are encoded, and a dot segment stands for the place that it is in
or for the one above. A segment with nothing of this kind is plain. The text of plain segments is read
as these segments, so a path may be put together out of them without being read again.

## Main definitions

* `Url.IsPlainSegment`: a segment that is read as it is written.

## Main results

* `Url.segments_text`: plain segments are read back from their text.
* `Url.scheme?_eq_none`: a text has no scheme if a slash ends what could be one.
-/

namespace NodeLending.Url

/-- Whether a character neither ends a segment nor is encoded in one. -/
def isPlain (c : Char) : Bool :=
  c != '/' && c != '\\' && !isAlwaysEncoded c && !pathSet.toList.contains c

/-- A segment that is read as it is written. -/
structure IsPlainSegment (s : String) : Prop where
  /-- Its characters are plain. -/
  plain : s.toList.all isPlain = true
  /-- It does not stand for the place that it is in. -/
  not_single : isSingleDot s.toList = false
  /-- Nor does it stand for the place above. -/
  not_double : isDoubleDot s.toList = false

variable {s : String} {ss : List String}

theorem IsPlainSegment.of_mem (h : IsPlainSegment s) {c : Char} (hc : c ∈ s.toList) :
    (c ≠ '/' ∧ c ≠ '\\') ∧ isAlwaysEncoded c = false ∧ pathSet.toList.contains c = false := by
  have hplain := List.all_eq_true.mp h.plain c hc
  simp only [isPlain, Bool.and_eq_true, bne_iff_ne, Bool.not_eq_true'] at hplain
  obtain ⟨⟨hended, halways⟩, hset⟩ := hplain
  exact ⟨hended, halways, hset⟩

theorem percentEncode_of_forall {set : String} {cs : List Char}
    (h : ∀ c ∈ cs, isAlwaysEncoded c = false ∧ set.toList.contains c = false) :
    percentEncode set cs = String.ofList cs := by
  rw [percentEncode]
  congr 1
  induction cs with
  | nil => rfl
  | cons c cs ih =>
    obtain ⟨halways, hset⟩ := h c List.mem_cons_self
    rw [List.flatMap_cons, ih fun d hd => h d (List.mem_cons_of_mem c hd), halways, hset]
    rfl

theorem addSegments_of_plain (h : ∀ s ∈ ss, IsPlainSegment s) (read : List String) :
    addSegments read (ss.map String.toList) = read ++ ss := by
  induction ss generalizing read with
  | nil => rw [List.map_nil, addSegments, List.append_nil]
  | cons s ss ih =>
    have hs := h s List.mem_cons_self
    rw [List.map_cons, addSegments, hs.not_double, hs.not_single,
      percentEncode_of_forall fun c hc => (hs.of_mem hc).2, String.ofList_toList]
    simp only [Bool.false_eq_true, if_false]
    rw [ih fun t ht => h t (List.mem_cons_of_mem s ht), List.append_assoc, List.singleton_append]

theorem Path.text_cons (s : String) (ss : List String) :
    (Path.segments (s :: ss)).text.toList = '/' :: (s.toList ++ (Path.segments ss).text.toList) := by
  rw [← List.singleton_append, Path.text_append, String.toList_append]
  simp [Path.text, String.join]

/-- The slashes of a path are those in front of its segments. -/
theorem splitAt_text {isSlash : Char → Bool} (hslash : isSlash '/' = true)
    (h : ∀ t ∈ s :: ss, ∀ c ∈ t.toList, isSlash c = false) :
    Text.splitAt isSlash (s.toList ++ (Path.segments ss).text.toList) =
      s.toList :: ss.map String.toList := by
  have hs := h s List.mem_cons_self
  induction ss generalizing s with
  | nil =>
    change Text.splitAt isSlash (s.toList ++ []) = _
    rw [List.append_nil, Text.splitAt_of_forall hs, List.map_nil]
  | cons t ss ih =>
    have hrest : ∀ u ∈ t :: ss, ∀ c ∈ u.toList, isSlash c = false :=
      fun u hu => h u (List.mem_cons_of_mem s hu)
    rw [Path.text_cons, Text.splitAt_append_cons hs hslash, ih hrest (hrest t List.mem_cons_self),
      List.map_cons]

/-- Plain segments are read back from their text. -/
theorem segments_text (special : Bool) (h : ∀ t ∈ s :: ss, IsPlainSegment t) :
    segments special (Path.segments (s :: ss)).text.toList = s :: ss := by
  have hunended : ∀ t ∈ s :: ss, ∀ c ∈ t.toList,
      (c == '/' || (special && c == '\\')) = false := by
    intro t ht c hc
    obtain ⟨hslash, hback⟩ := ((h t ht).of_mem hc).1
    simp [hslash, hback]
  rw [Path.text_cons, segments]
  simp only [beq_self_eq_true, Bool.true_or, if_true]
  rw [splitAt_text (by simp) hunended, ← List.map_cons, addSegments_of_plain h, List.nil_append]

/-- A text has no scheme if a slash ends what could be one. -/
theorem scheme?_eq_none {cs : List Char} (h : ∀ c ∈ cs, isSchemeChar c = true)
    (rest : List Char) : scheme? (cs ++ '/' :: rest) = none := by
  have hcs : ∀ c ∈ cs, (!isSchemeChar c) = false := fun c hc => by rw [h c hc]; rfl
  have hcut : Text.cutAt (fun c => !isSchemeChar c) (cs ++ '/' :: rest) = (cs, '/' :: rest) :=
    Text.cutAt_append_cons hcs (by decide) rest
  rw [scheme?, hcut]
  cases cs <;> rfl

end NodeLending.Url
