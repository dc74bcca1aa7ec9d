import NodeLending.Json.Codec
import NodeLending.Proofs.Json.Outlines

/-!
# What is written is read back

A type is written lawfully when its values are written as plain values and each is read back from
the outline of what is written for it. Then it is read back from the text as well.

For a record this comes down to its fields, one at a time: each field of the record either has been
written, and its value is read back, or may be left out and has the value of a field that is left
out.

## Main definitions

* `Json.Codec.Lawful`: what is written for the values of a type is read back.
* `Json.Fields.Builds`: fields that have been written build a value.

## Main results

* `Json.Codec.Lawful.read_write`: a value is read back from its text.
* `Json.record_object`: a record is read back if its fields build it.
* `Json.Codec.Lawful.list_array`: lists are read back.
-/

namespace NodeLending.Json

variable {α β : Type}

/-- What is written for the values of a type is plain and is read back. -/
class Codec.Lawful (α : Type) [Codec α] : Prop where
  /-- What is written is plain. -/
  plain : ∀ a : α, (encode a).Plain
  /-- What is written is read back. -/
  decode : ∀ a : α, Codec.decoder (encode a).outline = .ok a

/-- A value is read back from its text. -/
theorem Codec.Lawful.read_write [Codec α] [Codec.Lawful α] (a : α) :
    read (encode a).render = .ok a := by
  simp only [read, Json.decode, Document.decode, (plain a).read_render, Codec.Lawful.decode a]
  rfl

/-! ### Fields -/

/-- What has been written under a name. -/
def written (l : List (String × Value)) (name : String) : Option Outline :=
  (l.lookup name).map Value.outline

/-- Fields that have been written build a value. -/
structure Fields.Builds (x : Fields α) (l : List (String × Value)) (a : α) : Prop where
  /-- The value is built from what has been written. -/
  build : x.build (written l) = .ok a
  /-- What has been written can be read. -/
  check : ∀ spec ∈ x.specs, ∀ o ∈ written l spec.name, spec.check o = .ok ()
  /-- What has to be there has been written. -/
  required : ∀ spec ∈ x.specs, spec.required = true → (written l spec.name).isSome

namespace Fields.Builds

variable {l : List (String × Value)} {name : String} {d : Decoder α} {v : Value} {a : α}

theorem check_of_ok {o : Outline} (hd : d o = .ok a) : ((d o).map fun _ => ()) = .ok () := by
  rw [hd]
  rfl

theorem of_required (hv : l.lookup name = some v) (hd : d v.outline = .ok a) :
    (Fields.required name d).Builds l a := by
  have hwritten : written l name = some v.outline := by rw [written, hv, Option.map_some]
  refine ⟨?_, fun spec hspec o ho => ?_, fun spec hspec _ => ?_⟩
  · simp only [Fields.required, hwritten, hd]
  · cases List.mem_singleton.mp hspec
    rw [hwritten, Option.mem_some] at ho
    exact ho ▸ check_of_ok hd
  · cases List.mem_singleton.mp hspec
    rw [hwritten]
    rfl

theorem of_defaulted {default : α} (h : (∃ v, l.lookup name = some v ∧ d v.outline = .ok a) ∨
    l.lookup name = none ∧ default = a) : (Fields.defaulted name d default).Builds l a := by
  rcases h with ⟨v, hv, hd⟩ | ⟨hnone, rfl⟩
  · have hwritten : written l name = some v.outline := by rw [written, hv, Option.map_some]
    refine ⟨?_, fun spec hspec o ho => ?_, fun spec hspec hrequired => ?_⟩
    · simp only [Fields.defaulted, hwritten, hd]
    · cases List.mem_singleton.mp hspec
      rw [hwritten, Option.mem_some] at ho
      exact ho ▸ check_of_ok hd
    · cases List.mem_singleton.mp hspec
      cases hrequired
  · have hwritten : written l name = none := by rw [written, hnone, Option.map_none]
    refine ⟨?_, fun spec hspec o ho => ?_, fun spec hspec hrequired => ?_⟩
    · simp only [Fields.defaulted, hwritten]
    · cases List.mem_singleton.mp hspec
      rw [hwritten] at ho
      cases ho
    · cases List.mem_singleton.mp hspec
      cases hrequired

theorem map {x : Fields α} (h : x.Builds l a) (f : α → β) : (f <$> x).Builds l (f a) := by
  refine ⟨?_, h.check, h.required⟩
  change (x.build (written l)).map f = _
  rw [h.build]
  rfl

theorem seq {x : Fields (α → β)} {y : Fields α} {f : α → β} (hx : x.Builds l f)
    (hy : y.Builds l a) : (x <*> y).Builds l (f a) := by
  refine ⟨?_, fun spec hspec => ?_, fun spec hspec => ?_⟩
  · change (do
      let g ← x.build (written l)
      let a ← y.build (written l)
      return g a) = _
    rw [hx.build, hy.build]
    rfl
  · exact (List.mem_append.mp hspec).elim (hx.check spec) (hy.check spec)
  · exact (List.mem_append.mp hspec).elim (hx.required spec) (hy.required spec)

end Fields.Builds

/-! ### Records -/

section Records

variable {l : List (String × Value)}

theorem lookup_of_mem (hnodup : (l.map Prod.fst).Nodup) {f : String × Value} (hf : f ∈ l) :
    l.lookup f.1 = some f.2 := by
  induction l with
  | nil => cases hf
  | cons g l ih =>
    obtain ⟨hg, hl⟩ := List.nodup_cons.mp hnodup
    rcases List.mem_cons.mp hf with rfl | hf
    · rw [List.lookup_cons, beq_self_eq_true]
    · have hne : f.1 ≠ g.1 := fun heq => hg (heq ▸ List.mem_map.mpr ⟨f, hf, rfl⟩)
      rw [List.lookup_cons, beq_false_of_ne hne]
      exact ih hl hf

theorem lookup_map_outline (l : List (String × Value)) (name : String) :
    (l.map fun f => (f.1, f.2.outline)).lookup name = written l name := by
  rw [written]
  induction l with
  | nil => rfl
  | cons f l ih =>
    rw [List.map_cons, List.lookup_cons, List.lookup_cons]
    cases name == f.1
    · exact ih
    · rfl

theorem readFields_fieldOutlines {specs : List FieldSpec} {strict : Bool}
    {seen : List (String × Outline)} (hnodup : (l.map Prod.fst).Nodup)
    (hknown : ∀ f ∈ l, ∃ spec ∈ specs, spec.name = f.1)
    (hcheck : ∀ f ∈ l, ∀ spec ∈ specs, spec.name = f.1 → spec.check f.2.outline = .ok ())
    (hseen : ∀ f ∈ l, seen.lookup f.1 = none) :
    readFields specs strict seen (Value.fieldOutlines l) =
      .ok (seen ++ l.map fun f => (f.1, f.2.outline)) := by
  induction l generalizing seen with
  | nil =>
    rw [List.map_nil, List.append_nil]
    rfl
  | cons f l ih =>
    obtain ⟨k, v⟩ := f
    obtain ⟨hk, hl⟩ := List.nodup_cons.mp hnodup
    obtain ⟨spec, hspec, hname⟩ := hknown (k, v) List.mem_cons_self
    have hfound : (specs.find? fun spec => spec.name == k).isSome = true :=
      List.find?_isSome.mpr ⟨spec, hspec, beq_iff_eq.mpr hname⟩
    obtain ⟨spec', hspec'⟩ := Option.isSome_iff_exists.mp hfound
    have hname' : spec'.name = k := by simpa using List.find?_some hspec'
    have hok := hcheck (k, v) List.mem_cons_self spec' (List.mem_of_find?_eq_some hspec') hname'
    have hrest : ∀ f ∈ l, (seen ++ [(k, v.outline)]).lookup f.1 = none := by
      intro f hf
      have hne : f.1 ≠ k := fun heq => hk (heq ▸ List.mem_map.mpr ⟨f, hf, rfl⟩)
      rw [List.lookup_append, hseen f (List.mem_cons_of_mem _ hf), List.lookup_cons,
        beq_false_of_ne hne]
      rfl
    have htail := ih hl (fun f hf => hknown f (List.mem_cons_of_mem _ hf))
      (fun f hf => hcheck f (List.mem_cons_of_mem _ hf)) hrest
    rw [Value.fieldOutlines, readFields, hspec']
    simp only [hseen (k, v) List.mem_cons_self, Option.isSome_none, Bool.false_eq_true, if_false,
      hok]
    rw [htail, List.append_assoc]
    rfl

/-- A record is read back if its fields build it from what has been written. Fields may be left
out. -/
theorem record_object {fields : Fields α} {name : String} {strict : Bool} {a : α}
    (hspecs : (fields.specs.map FieldSpec.name).Nodup)
    (hsub : (l.map Prod.fst).Sublist (fields.specs.map FieldSpec.name)) (h : fields.Builds l a) :
    record name strict fields (Value.object l).outline = .ok a := by
  have hnodup : (l.map Prod.fst).Nodup := hspecs.sublist hsub
  have hknown : ∀ f ∈ l, ∃ spec ∈ fields.specs, spec.name = f.1 := fun f hf =>
    List.mem_map.mp (hsub.subset (List.mem_map.mpr ⟨f, hf, rfl⟩))
  have hcheck : ∀ f ∈ l, ∀ spec ∈ fields.specs, spec.name = f.1 →
      spec.check f.2.outline = .ok () := by
    intro f hf spec hspec hname
    refine h.check spec hspec f.2.outline ?_
    rw [hname, written, lookup_of_mem hnodup hf]
    rfl
  have hread : readFields fields.specs strict [] (Value.fieldOutlines l) =
      .ok ([] ++ l.map fun f => (f.1, f.2.outline)) :=
    readFields_fieldOutlines hnodup hknown hcheck fun f hf => rfl
  have hlookup : (fun field => (l.map fun f => (f.1, f.2.outline)).lookup field) = written l :=
    funext fun field => lookup_map_outline l field
  have hmissing : missing? fields.specs (l.map fun f => (f.1, f.2.outline)) = none := by
    rw [missing?, Option.map_eq_none_iff, List.find?_eq_none]
    intro spec hspec
    rw [lookup_map_outline, Bool.and_eq_true, not_and]
    intro hrequired hnone
    rw [Option.isNone_iff_eq_none] at hnone
    have hthere := h.required spec hspec hrequired
    rw [hnone] at hthere
    cases hthere
  rw [Value.outline, record, hread, List.nil_append]
  simp only [bind, Except.bind, Bool.not_true, Bool.false_eq_true, if_false, hmissing, hlookup]
  exact h.build

end Records

/-! ### Parts -/

theorem decode_string (s : String) : Decoder.string (Value.string s).outline = .ok s := rfl

/-- A number up to a bound is read back. -/
theorem decode_nat {bound n : Nat} (type : String) (h : n ≤ bound) :
    Decoder.natural bound type (Value.nat n).outline = .ok n :=
  if_pos ⟨Int.natCast_nonneg n, h⟩

/-- Numbers of 64 bits are read back. -/
theorem decode_word (type : String) (n : UInt64) :
    Decoder.word type (Value.word n).outline = .ok n := by
  have hle : n.toNat ≤ UInt64.size - 1 := Nat.le_sub_one_of_lt n.toNat_lt_size
  rw [Decoder.word, Value.word, decode_nat type hle]
  exact congrArg Except.ok UInt64.ofNat_toNat

/-- A value that is read back and stands a check is read back. -/
theorem decode_refine {d : Decoder α} {check : α → Except String β} {o : Outline} {a : α} {b : β}
    (hd : d o = .ok a) (hcheck : check a = .ok b) : d.refine check o = .ok b := by
  simp only [Decoder.refine, hd, bind, Except.bind, hcheck]

theorem plain_word (n : UInt64) : (Value.word n).Plain := by
  have hlt := n.toNat_lt
  exact .integer (by omega) (by omega)

theorem itemsFrom_itemOutlines {d : Decoder α} {w : α → Value} {items : List α}
    (h : ∀ a ∈ items, d (w a).outline = .ok a) (i : Nat) :
    Decoder.itemsFrom d i (Value.itemOutlines (items.map w)) = .ok items := by
  induction items generalizing i with
  | nil => rfl
  | cons a items ih =>
    rw [List.map_cons, Value.itemOutlines, Decoder.itemsFrom, Decoder.under,
      h a List.mem_cons_self, ih fun b hb => h b (List.mem_cons_of_mem a hb)]
    rfl

/-- A list is read back if its items are. -/
theorem decode_list {d : Decoder α} {w : α → Value} {items : List α}
    (h : ∀ a ∈ items, d (w a).outline = .ok a) :
    d.list (Value.array (items.map w)).outline = .ok items := by
  rw [Value.outline, Decoder.list, itemsFrom_itemOutlines h]
  rfl

theorem plain_array {w : α → Value} (h : ∀ a, (w a).Plain) (items : List α) :
    (Value.array (items.map w)).Plain := by
  refine .array fun v hv => ?_
  obtain ⟨a, -, rfl⟩ := List.mem_map.mp hv
  exact h a

instance {kind : NameKind} : Codec.Lawful (Name kind) where
  plain n := .string n.text
  decode n := decode_refine (decode_string n.text) (by rw [Name.parse?_text]; rfl)

instance : Codec.Lawful ReservationId where
  plain id := plain_word id.value
  decode id := by
    change (Decoder.word "u64" (Value.word id.value).outline).map ReservationId.mk = _
    rw [decode_word]
    rfl

end NodeLending.Json
