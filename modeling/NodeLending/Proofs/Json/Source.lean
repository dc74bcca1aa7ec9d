import NodeLending.Json.Codec
import NodeLending.Proofs.Decode.Reading

/-!
# Where names are read from

A record is read off the parts of its outline: the values of its fields when it is written as an
object, its items when it is written as an array. So whatever form a text gives a record, a typed
name in it stands as a string in the text, letter by letter, and nothing is made up for a field that
is left out.

## Main definitions

* `Json.Outline.Part`, `Json.Outline.Holds`: what stands in an outline.
* `Json.Decoder.Draws`: the names in what is read are strings of the text.

## Main results

* `Json.exists_build_of_record`: a record is built from parts of its outline, in either form.
* `Json.Decoder.Draws.name`, `Json.Decoder.Draws.list`, `Json.Decoder.Draws.record`: names, lists
  and records.
-/

namespace NodeLending.Json

variable {α β : Type}

namespace Outline

/-- The second outline stands directly inside the first. -/
inductive Part : Outline → Outline → Prop
  /-- An item of an array. -/
  | item {items : List Outline} {closed : Bool} {o : Outline} (h : o ∈ items) :
    Part (.array items closed) o
  /-- The value of a field of an object. -/
  | field {fields : List (Key × Outline)} {closed : Bool} {key : Key} {o : Outline}
    (h : (key, o) ∈ fields) : Part (.object fields closed) o

/-- A string stands in an outline, as a value at any depth. -/
inductive Holds (s : String) : Outline → Prop
  /-- The outline is the string. -/
  | text : Holds s (.text (some s))
  /-- It stands in a part. -/
  | part {whole o : Outline} (hpart : whole.Part o) (h : Holds s o) : Holds s whole

end Outline

/-! ### The parts of a record -/

/-- What has been read of an object are values of its fields. -/
theorem mem_of_readFields {specs : List FieldSpec} {strict : Bool} {seen all : List (String × Outline)}
    {pairs : List (Key × Outline)} (h : readFields specs strict seen pairs = .ok all)
    {field : String} {o : Outline} (ho : (field, o) ∈ all) :
    (field, o) ∈ seen ∨ (.name field, o) ∈ pairs := by
  fun_induction readFields specs strict seen pairs with
  | case1 seen => exact .inl (Except.ok.inj h ▸ ho)
  | case2 | case3 | case5 | case7 | case8 => cases h
  | case4 seen name o' rest _ _ _ _ ih =>
    rcases ih h with hseen | hrest
    · rcases List.mem_append.mp hseen with hseen | hnew
      · exact .inl hseen
      · cases List.mem_singleton.mp hnew
        exact .inr List.mem_cons_self
    · exact .inr (List.mem_cons_of_mem _ hrest)
  | case6 seen name o' rest _ _ _ ih =>
    exact (ih h).imp_right (List.mem_cons_of_mem _)

/-- What has been read of an array are its items. -/
theorem mem_of_readItems {expected : String} {closed : Bool} {i : Nat} {specs : List FieldSpec}
    {items : List Outline} {all : List (String × Outline)}
    (h : readItems expected closed i specs items = .ok all) {field : String} {o : Outline}
    (ho : (field, o) ∈ all) : o ∈ items := by
  fun_induction readItems expected closed i specs items generalizing all with
  | case1 => cases h; cases ho
  | case2 | case3 | case4 | case5 | case7 => cases h
  | case6 i spec specs _ _ ih => exact ih h ho
  | case8 i spec specs o' rest _ ih =>
    obtain ⟨later, hlater, hall⟩ := bind_eq_ok_iff.mp h
    cases hall
    rcases List.mem_cons.mp ho with hfirst | ho
    · cases hfirst
      exact List.mem_cons_self
    · exact List.mem_cons_of_mem _ (ih hlater ho)

theorem mem_of_lookup {l : List (String × Outline)} {field : String} {o : Outline}
    (h : l.lookup field = some o) : (field, o) ∈ l := by
  induction l with
  | nil => cases h
  | cons p l ih =>
    rw [List.lookup_cons] at h
    split at h
    · next heq =>
      rw [eq_of_beq heq, ← Option.some.inj h]
      exact List.mem_cons_self
    · exact List.mem_cons_of_mem _ (ih h)

/-- A record is built from parts of its outline, whichever form it has. -/
theorem exists_build_of_record {name : String} {strict : Bool} {fields : Fields α} {o : Outline}
    {a : α} (h : record name strict fields o = .ok a) :
    ∃ get, fields.build get = .ok a ∧ ∀ field o', get field = some o' → o.Part o' := by
  unfold record at h
  split at h
  · obtain ⟨seen, hseen, h⟩ := bind_eq_ok_iff.mp h
    split at h
    · cases h
    · split at h
      · cases h
      · refine ⟨_, h, fun field o' ho' => ?_⟩
        rcases mem_of_readFields hseen (mem_of_lookup ho') with hnil | hpair
        · cases hnil
        · exact .field hpair
  · obtain ⟨seen, hseen, h⟩ := bind_eq_ok_iff.mp h
    exact ⟨_, h, fun field o' ho' => .item (mem_of_readItems hseen (mem_of_lookup ho'))⟩
  · obtain ⟨found, -, h⟩ := bind_eq_ok_iff.mp h
    cases h

/-! ### The values of fields -/

namespace Fields

variable {get : String → Option Outline} {name : String} {d : Decoder α}

theorem build_required {a : α} :
    (required name d).build get = .ok a ↔ ∃ o, get name = some o ∧ d o = .ok a := by
  simp only [required]
  cases get name <;> simp

theorem build_defaulted {default a : α} : (defaulted name d default).build get = .ok a ↔
    (∃ o, get name = some o ∧ d o = .ok a) ∨ get name = none ∧ default = a := by
  simp only [defaulted]
  cases get name <;> simp

theorem build_map {x : Fields α} {f : α → β} {b : β} :
    (f <$> x).build get = .ok b ↔ ∃ a, x.build get = .ok a ∧ f a = b :=
  map_eq_ok_iff

theorem build_seq {x : Fields (α → β)} {y : Fields α} {b : β} : (x <*> y).build get = .ok b ↔
    ∃ f, x.build get = .ok f ∧ ∃ a, y.build get = .ok a ∧ f a = b := by
  change (do
    let f ← x.build get
    let a ← y.build get
    return f a) = _ ↔ _
  simp only [bind_eq_ok_iff, pure, Except.pure, Except.ok.injEq]

end Fields

/-! ### Names that are read -/

namespace Decoder

variable {d : Decoder α} {names : α → List String}

/-- The names in what is read are strings of the outline. -/
def Draws (d : Decoder α) (names : α → List String) : Prop :=
  ∀ o a, d o = .ok a → ∀ n ∈ names a, o.Holds n

theorem string_eq_ok_iff {o : Outline} {s : String} : string o = .ok s ↔ o = .text (some s) := by
  unfold string
  split
  · simp
  · next h =>
    refine iff_of_false (fun hok => ?_) fun heq => h s heq
    obtain ⟨found, -, hok⟩ := bind_eq_ok_iff.mp hok
    cases hok

/-- What is read without names draws none. -/
theorem Draws.none (d : Decoder α) : d.Draws fun _ => [] := fun _ _ _ _ hn => nomatch hn

/-- A name is read off a string that it is. -/
theorem Draws.name (kind : NameKind) :
    (Codec.decoder : Decoder (Name kind)).Draws fun n => [n.text] := by
  intro o n h text htext
  obtain ⟨s, hs, h⟩ := bind_eq_ok_iff.mp h
  rw [string_eq_ok_iff.mp hs]
  split at h
  · next hparse =>
    have hname := Name.text_of_parse? (mapError_eq_ok_iff.mp hparse)
    cases h
    rw [List.mem_singleton.mp htext, hname]
    exact .text
  · cases h

theorem exists_of_itemsFrom {i : Nat} {items : List Outline} {as : List α}
    (h : itemsFrom d i items = .ok as) {a : α} (ha : a ∈ as) : ∃ o ∈ items, d o = .ok a := by
  induction items generalizing i as with
  | nil => cases h; cases ha
  | cons o items ih =>
    obtain ⟨first, hfirst, h⟩ := bind_eq_ok_iff.mp h
    obtain ⟨later, hlater, h⟩ := bind_eq_ok_iff.mp h
    cases h
    rcases List.mem_cons.mp ha with rfl | ha
    · exact ⟨o, List.mem_cons_self, mapError_eq_ok_iff.mp hfirst⟩
    · obtain ⟨o', ho', hd⟩ := ih hlater ha
      exact ⟨o', List.mem_cons_of_mem o ho', hd⟩

/-- The names in a list are those of its items. -/
theorem Draws.list (hd : d.Draws names) : d.list.Draws fun as => as.flatMap names := by
  intro o as h n hn
  obtain ⟨a, ha, hn⟩ := List.mem_flatMap.mp hn
  unfold Decoder.list at h
  split at h
  · obtain ⟨bs, hbs, h⟩ := bind_eq_ok_iff.mp h
    split at h
    · cases h
      obtain ⟨o', ho', hok⟩ := exists_of_itemsFrom hbs ha
      exact .part (.item ho') (hd o' a hok n hn)
    · cases h
  · obtain ⟨found, -, h⟩ := bind_eq_ok_iff.mp h
    cases h

/-- The names in a record are those of the fields that are there. -/
theorem Draws.record {fields : Fields α}
    (h : ∀ get a, fields.build get = .ok a → ∀ n ∈ names a, ∃ field, ∃ o ∈ get field, o.Holds n)
    (name : String) (strict : Bool) : (Json.record name strict fields).Draws names := by
  intro o a hok n hn
  obtain ⟨get, hbuild, hparts⟩ := exists_build_of_record hok
  obtain ⟨field, o', hfield, hholds⟩ := h get a hbuild n hn
  exact .part (hparts field o' hfield) hholds

/-- The value of a text is read off its outline. -/
theorem decode_outline {s : String} {a : α} (h : decode d s = .ok a) :
    d (Document.read s).outline = .ok a := by
  unfold decode Document.decode at h
  cases hd : d (Document.read s).outline with
  | error e => simp only [hd] at h; cases h
  | ok b =>
    simp only [hd] at h
    split at h
    · cases h
    · rw [Except.ok.inj h]

end Decoder

end NodeLending.Json
