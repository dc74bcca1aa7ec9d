import NodeLending.Node.Definition
import NodeLending.Proofs.Json.Outlines

/-!
# What a digest stands for

A value is hashed as its compact text with the fields of every object in ascending order. So the
order in which fields were given does not matter, at any depth; only where a name is repeated, it
decides which field counts.

A node definition is read back from the text that is hashed for it. Different definitions therefore
have different texts, and they share a digest only if the digest itself has a collision.

## Main definitions

* `Json.Value.Reordered`: values that differ in the order of fields only.
* `Digest.Collide`: different messages whose digests start alike.
* `NodeDefinition.ascendingFields`: the fields of a definition in the order in which they are hashed.

## Main results

* `Json.Value.Reordered.sorted_eq`: sorted fields do not remember their order.
* `NodeDefinition.sorted_encode`: the value that is hashed for a definition.
* `NodeDefinition.canonical_inj`: different definitions are hashed as different texts.
* `NodeDefinition.canonical_faithful`: what follows for the digests.
-/

namespace NodeLending

/-- Messages are different, and their digests start with the same bytes. -/
def Digest.Collide (kept : Nat) (message message' : List UInt8) : Prop :=
  message ≠ message' ∧ (sha256 message).take kept = (sha256 message').take kept

namespace Json.Value

/-! ### The order of fields -/

/-- The values differ in nothing but the order of the fields of objects, at any depth. -/
inductive Reordered : Value → Value → Prop
  /-- Nothing is moved. -/
  | refl (v : Value) : Reordered v v
  /-- Fields are moved twice. -/
  | trans {u v w : Value} (h : Reordered u v) (h' : Reordered v w) : Reordered u w
  /-- Fields are moved inside an item of an array. -/
  | item (before after : List Value) {v w : Value} (h : Reordered v w) :
    Reordered (.array (before ++ v :: after)) (.array (before ++ w :: after))
  /-- Fields are moved inside a field of an object. -/
  | field (before after : List (String × Value)) (name : String) {v w : Value}
    (h : Reordered v w) :
    Reordered (.object (before ++ (name, v) :: after)) (.object (before ++ (name, w) :: after))
  /-- The fields of an object are moved. If a name is repeated, its fields keep their order. -/
  | fields {fs gs : List (String × Value)}
    (h : ∀ name, fs.filter (·.1 == name) = gs.filter (·.1 == name)) :
    Reordered (.object fs) (.object gs)

variable {v w : Value} {fs gs : List (String × Value)}

theorem sortedItems_eq_map (items : List Value) : sortedItems items = items.map sorted := by
  induction items with
  | nil => rfl
  | cons v items ih => rw [sortedItems, ih, List.map_cons]

theorem sortedFields_eq_map (fs : List (String × Value)) :
    sortedFields fs = fs.map fun f => (f.1, f.2.sorted) := by
  induction fs with
  | nil => rfl
  | cons f fs ih => rw [sortedFields, ih, List.map_cons]

/-- Fields that ascend stay where they are. -/
theorem sorted_of_ascending (hascending : fs.Pairwise fun f g => compare f.1 g.1 = .lt)
    (h : ∀ f ∈ fs, f.2.sorted = f.2) : (object fs).sorted = .object fs := by
  have hsame : sortedFields fs = fs := calc
    sortedFields fs = fs.map fun f => (f.1, f.2.sorted) := sortedFields_eq_map fs
    _ = fs.map id := List.map_congr_left fun f hf => Prod.ext rfl (h f hf)
    _ = fs := List.map_id fs
  rw [sorted, hsame]
  exact congrArg (fun m => object m.entries) (Keyed.ofList_entries ⟨fs, hascending⟩)

/-- The fields of an object without repeated names may be moved anywhere. -/
theorem Reordered.of_perm (hnodup : (fs.map Prod.fst).Nodup) (h : fs.Perm gs) :
    Reordered (.object fs) (.object gs) := by
  refine .fields fun name => ?_
  have hfs : fs.Pairwise fun f g => f.1 ≠ g.1 := List.pairwise_map.mp hnodup
  have hgs : gs.Pairwise fun f g => f.1 ≠ g.1 :=
    List.pairwise_map.mp ((h.map Prod.fst).nodup_iff.mp hnodup)
  -- There are not two fields of the name, so the two lists hold the same field or none.
  refine (h.filter _).eq_of_pairwise (fun f g hf hg hne _ => absurd ?_ hne) (hfs.filter _)
    (hgs.filter _)
  rw [eq_of_beq (List.mem_filter.mp hf).2, eq_of_beq (List.mem_filter.mp hg).2]

/-- Sorted fields do not remember their order. -/
theorem Reordered.sorted_eq (h : v.Reordered w) : v.sorted = w.sorted := by
  induction h with
  | refl v => rfl
  | trans _ _ ih ih' => exact ih.trans ih'
  | item before after _ ih =>
    simp only [sorted, sortedItems_eq_map, List.map_append, List.map_cons, ih]
  | field before after name _ ih =>
    simp only [sorted, sortedFields_eq_map, List.map_append, List.map_cons, ih]
  | @fields fs gs h =>
    have hsame : Keyed.ofList (sortedFields fs) = Keyed.ofList (sortedFields gs) := by
      refine Keyed.ofList_eq_of_filter fun name => ?_
      rw [sortedFields_eq_map, sortedFields_eq_map, List.filter_map, List.filter_map]
      exact congrArg _ (h name)
    rw [sorted, sorted, hsame]

/-- The digest does not depend on the order of fields. -/
theorem Reordered.digest_eq (h : v.Reordered w) : v.digest = w.digest := by
  rw [digest, digest, canonical, canonical, h.sorted_eq]

end Json.Value

/-! ### The text of a definition -/

namespace NodeDefinition

open Json

variable {d d' : NodeDefinition}

/-- The fields of a definition in ascending order. -/
def ascendingFields (d : NodeDefinition) : List (String × Value) :=
  Json.optional "description" (d.description.map .string) ++
    [("labels", .string d.labels),
      ("launch", .object (d.launch.mapValues Value.string).entries)]

theorem mem_ascendingFields {f : String × Value} : f ∈ d.ascendingFields ↔
    (∃ text, d.description = some text ∧ f = ("description", .string text)) ∨
      f = ("labels", .string d.labels) ∨
      f = ("launch", .object (d.launch.mapValues Value.string).entries) := by
  simp only [ascendingFields, List.mem_append, List.mem_cons, List.not_mem_nil, or_false]
  refine or_congr_left ?_
  cases d.description with
  | none => simp [Json.optional]
  | some text => simp [Json.optional]

theorem pairwise_ascendingFields (d : NodeDefinition) :
    d.ascendingFields.Pairwise fun f g => compare f.1 g.1 = .lt := by
  have hnames : (d.ascendingFields.map Prod.fst).Pairwise fun a b => compare a b = .lt := by
    obtain ⟨labels, description, launch⟩ := d
    cases description with
    | none => exact (by decide : ["labels", "launch"].Pairwise fun a b => compare a b = .lt)
    | some text =>
      exact (by decide : ["description", "labels", "launch"].Pairwise fun a b => compare a b = .lt)
  exact List.pairwise_map.mp hnames

/-- A definition is written with its description, if it has one, in the second place. -/
theorem reordered_encode (d : NodeDefinition) :
    (encode d).Reordered (.object d.ascendingFields) := by
  obtain ⟨labels, description, launch⟩ := d
  cases description with
  | none => exact .refl _
  | some text =>
    have hnodup : ["labels", "description", "launch"].Nodup := by decide
    exact .of_perm hnodup (.swap _ _ _)

/-- The value that is hashed for a definition. -/
theorem sorted_encode (d : NodeDefinition) : (encode d).sorted = .object d.ascendingFields := by
  rw [d.reordered_encode.sorted_eq]
  refine Value.sorted_of_ascending d.pairwise_ascendingFields fun f hf => ?_
  rcases mem_ascendingFields.mp hf with ⟨text, -, rfl⟩ | rfl | rfl
  · rfl
  · rfl
  · refine Value.sorted_of_ascending (d.launch.mapValues Value.string).ascending fun f hf => ?_
    obtain ⟨e, -, rfl⟩ := List.mem_map.mp hf
    rfl

theorem plain_ascendingFields (d : NodeDefinition) : (Value.object d.ascendingFields).Plain := by
  refine .object fun f hf => ?_
  rcases mem_ascendingFields.mp hf with ⟨text, -, rfl⟩ | rfl | rfl
  · exact .string text
  · exact .string d.labels
  · refine .object fun f hf => ?_
    obtain ⟨e, -, rfl⟩ := List.mem_map.mp hf
    exact .string e.2

theorem entries_strings_inj {m m' : Keyed String String} :
    (m.mapValues Value.string).entries = (m'.mapValues Value.string).entries ↔ m = m' := by
  have hvalue : ∀ e e' : String × String, (e.1, Value.string e.2) = (e'.1, Value.string e'.2) →
      e = e' := by
    rintro ⟨name, text⟩ ⟨name', text'⟩ h
    cases h
    rfl
  obtain ⟨entries, ascending⟩ := m
  obtain ⟨entries', ascending'⟩ := m'
  rw [Keyed.mapValues, Keyed.mapValues, List.map_inj_right hvalue, Keyed.mk.injEq]

/-- A definition is known from its fields. -/
theorem ascendingFields_inj : d.ascendingFields = d'.ascendingFields ↔ d = d' := by
  obtain ⟨labels, description, launch⟩ := d
  obtain ⟨labels', description', launch'⟩ := d'
  cases description <;> cases description' <;>
    simp [ascendingFields, Json.optional, entries_strings_inj, and_left_comm]

/-- **Different definitions are hashed as different texts.** -/
theorem canonical_inj : (encode d).canonical = (encode d').canonical ↔ d = d' := by
  rw [Value.canonical, Value.canonical, sorted_encode, sorted_encode,
    d.plain_ascendingFields.render_inj d'.plain_ascendingFields, Value.object.injEq,
    ascendingFields_inj]

example : (encode (⟨"a\"", some "", .ofList [("k", "\x01")]⟩ : NodeDefinition)).canonical =
    "\x7b\"description\":\"\",\"labels\":\"a\\\"\",\"launch\":\x7b\"k\":\"\\u0001\"\x7d\x7d" := by
  cbv

/-- Definitions have the same digest when they are the same, and otherwise only if the digests of
their texts start alike. -/
theorem digest_eq_iff : d.digest = d'.digest ↔ d = d' ∨
    Digest.Collide 16 (Text.utf8 (encode d).canonical) (Text.utf8 (encode d').canonical) := by
  rw [digest, digest, Value.digest, Value.digest, String.append_right_inj, Text.hex_inj,
    Digest.Collide, ne_eq, Text.utf8_inj, canonical_inj]
  by_cases h : d = d'
  · simp [h]
  · simp [h]

/-- **What a digest stands for.**

* The text that is hashed for a definition belongs to this definition alone: the labels, the
  description, whether there is one, and all parameters of the launch can be told from it.
* The digest of a value does not depend on the order of the fields of its objects.
* Different definitions have one digest only if their texts are different messages whose digests
  start with the same sixteen bytes. -/
theorem canonical_faithful :
    (∀ d d' : NodeDefinition, (encode d).canonical = (encode d').canonical ↔ d = d') ∧
    (∀ v w : Value, v.Reordered w → v.digest = w.digest) ∧
    ∀ d d' : NodeDefinition, d.digest = d'.digest ↔ d = d' ∨
      Digest.Collide 16 (Text.utf8 (encode d).canonical) (Text.utf8 (encode d').canonical) :=
  ⟨fun _ _ => canonical_inj, fun _ _ h => h.digest_eq, fun _ _ => digest_eq_iff⟩

end NodeDefinition

namespace Sample

open Json

/-- An object in an array, with fields in an order of their own at two depths. -/
def shelf : Value :=
  .array [.object [("b", .object [("y", .string "\""), ("x", .null)]), ("a", .bool true)]]

/-- The same with ascending fields. -/
def tidyShelf : Value :=
  .array [.object [("a", .bool true), ("b", .object [("x", .null), ("y", .string "\"")])]]

theorem reordered_shelf : shelf.Reordered tidyShelf :=
  .trans (.item [] [] (.field [] [("a", .bool true)] "b" (.of_perm (by decide) (.swap _ _ _))))
    (.item [] [] (.of_perm (by decide) (.swap _ _ _)))

end Sample

/-- The digest does not tell them apart. -/
theorem NodeDefinition.canonical_faithful_of_reordered : Sample.shelf ≠ Sample.tidyShelf ∧
    Sample.shelf.Reordered Sample.tidyShelf ∧ Sample.shelf.digest = Sample.tidyShelf.digest :=
  ⟨by simp [Sample.shelf, Sample.tidyShelf], Sample.reordered_shelf,
    canonical_faithful.2.1 _ _ Sample.reordered_shelf⟩

end NodeLending
