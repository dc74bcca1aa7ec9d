import Mathlib.Data.List.Nodup
import Mathlib.Data.List.Perm.Subperm
import NodeLending.ChangePlan

/-!
# Change plans as edits

Carrying out a change plan edits the definitions that have been applied: a definition is inserted
under each key that is created or updated, and each key that is removed is erased. The plan is made
of the keys where the two collections differ, each listed once. So the edits lead from the one
collection to the other, and none of them can be spared: whoever gets from the one to the other by
single changes, in whatever order and with whatever detours, makes all of them.

## Main definitions

* `Edit`, `Keyed.edited`: single changes of a collection, and what comes of a number of them.
* `ChangePlan.edits`: the edits that a plan asks for.

## Main results

* `Keyed.find?_edited_cases`: what edits leave under a key.
* `ChangePlan.mem_edits`: a plan edits where the collections differ.
* `ChangePlan.between_minimal`: a plan is the least edit that leads from the one to the other.
-/

namespace NodeLending

/-- A single change of a collection. -/
inductive Edit (κ δ : Type) where
  /-- Put a definition under a key, whatever is there. -/
  | insert (key : κ) (definition : δ)
  /-- Drop what is under a key. -/
  | erase (key : κ)
  deriving DecidableEq, Repr

namespace Edit

variable {κ δ : Type}

/-- The key that is changed. -/
def key : Edit κ δ → κ
  | insert k _ => k
  | erase k => k

/-- What is under the key afterwards. -/
def definition? : Edit κ δ → Option δ
  | insert _ d => some d
  | erase _ => none

/-- A change is known by its key and by what is there afterwards. -/
theorem ext_key {e e' : Edit κ δ} (hkey : e.key = e'.key)
    (hdefinition : e.definition? = e'.definition?) : e = e' := by
  cases e <;> cases e' <;> simp_all [key, definition?]

end Edit

/-! ### Edited collections -/

namespace Keyed

variable {κ δ : Type} [Ord κ] [Std.TransOrd κ] [Std.LawfulEqOrd κ]

/-- The collection after a single change. -/
def edit (m : Keyed κ δ) : Edit κ δ → Keyed κ δ
  | .insert k d => m.insert k d
  | .erase k => m.erase k

/-- The collection after a number of changes, from left to right. -/
def edited (m : Keyed κ δ) (es : List (Edit κ δ)) : Keyed κ δ := es.foldl edit m

variable [DecidableEq κ]

theorem find?_edit (m : Keyed κ δ) (e : Edit κ δ) (k : κ) :
    (m.edit e).find? k = if k = e.key then e.definition? else m.find? k := by
  cases e with
  | insert j d => exact find?_insert m j k d
  | erase j => exact find?_erase m j k

/-- Under a key is what one of its changes has left there, or what was there if it has none. -/
theorem find?_edited_cases (m : Keyed κ δ) (es : List (Edit κ δ)) (k : κ) :
    (∀ e ∈ es, e.key ≠ k) ∧ (m.edited es).find? k = m.find? k ∨
      ∃ e ∈ es, e.key = k ∧ (m.edited es).find? k = e.definition? := by
  induction es generalizing m with
  | nil => exact .inl ⟨List.forall_mem_nil _, rfl⟩
  | cons e es ih =>
    rcases ih (m.edit e) with ⟨hnone, hsame⟩ | ⟨e', he', hkey, hlast⟩
    · -- No later change touches the key, so this one decides.
      rw [find?_edit] at hsame
      by_cases hk : k = e.key
      · rw [if_pos hk] at hsame
        exact .inr ⟨e, List.mem_cons_self, hk.symm, hsame⟩
      · rw [if_neg hk] at hsame
        exact .inl ⟨List.forall_mem_cons.mpr ⟨Ne.symm hk, hnone⟩, hsame⟩
    · exact .inr ⟨e', List.mem_cons_of_mem e he', hkey, hlast⟩

end Keyed

/-! ### The edits of a plan -/

namespace ChangePlan

variable {κ δ α : Type}

section Edits

variable [Ord κ] {desired : Keyed κ δ}

/-- The edits that a plan asks for: the wanted definition is inserted under each key that is created
or updated, and each key that is removed is erased. -/
def edits (p : ChangePlan κ) (desired : Keyed κ δ) : List (Edit κ δ) :=
  ((p.create ++ p.update).filterMap fun k => (desired.find? k).map (Edit.insert k)) ++
    p.remove.map Edit.erase

theorem insert_mem_edits {p : ChangePlan κ} {k : κ} {d : δ} : .insert k d ∈ p.edits desired ↔
    (k ∈ p.create ∨ k ∈ p.update) ∧ desired.find? k = some d := by
  simp only [edits, List.mem_append, List.mem_filterMap, List.mem_map, Option.map_eq_some_iff,
    Edit.insert.injEq, reduceCtorEq, and_false, exists_false, or_false]
  constructor
  · rintro ⟨j, hj, d', hd, rfl, rfl⟩
    exact ⟨hj, hd⟩
  · rintro ⟨hk, hd⟩
    exact ⟨k, hk, d, hd, rfl, rfl⟩

theorem erase_mem_edits {p : ChangePlan κ} {k : κ} : .erase k ∈ p.edits desired ↔
    k ∈ p.remove := by
  simp [edits]

/-- Each key with a definition gets one insertion. -/
theorem map_key_inserts {l : List κ} (h : ∀ k ∈ l, ∃ d, desired.find? k = some d) :
    (l.filterMap fun k => (desired.find? k).map (Edit.insert k)).map Edit.key = l := by
  have hself : ∀ k ∈ l, ((desired.find? k).map (Edit.insert k)).map Edit.key = some k := by
    intro k hk
    obtain ⟨d, hd⟩ := h k hk
    rw [hd]
    rfl
  rw [List.map_filterMap, List.filterMap_congr hself, List.filterMap_some]

end Edits

section Between

variable [Ord κ] [Std.LawfulEqOrd κ] [DecidableEq δ] {desired : Keyed κ δ} {applied : Keyed κ α}
  {definition : α → δ}

/-- A plan edits the keys under which the collections differ, and leaves there what is wanted. -/
theorem mem_edits {e : Edit κ δ} : e ∈ (between desired applied definition).edits desired ↔
    (applied.mapValues definition).find? e.key ≠ desired.find? e.key ∧
      e.definition? = desired.find? e.key := by
  rw [Keyed.find?_mapValues]
  cases e with
  | insert k d =>
    rw [insert_mem_edits, mem_create, mem_update, Edit.key, Edit.definition?]
    cases desired.find? k <;> cases applied.find? k <;> simp [eq_comm]
  | erase k =>
    rw [erase_mem_edits, mem_remove, Edit.key, Edit.definition?]
    cases desired.find? k <;> cases applied.find? k <;> simp

/-- Where the collections differ the plan has an edit. -/
theorem exists_mem_edits {k : κ}
    (h : (applied.mapValues definition).find? k ≠ desired.find? k) :
    ∃ e ∈ (between desired applied definition).edits desired, e.key = k := by
  cases hd : desired.find? k with
  | none => exact ⟨.erase k, mem_edits.mpr ⟨h, hd.symm⟩, rfl⟩
  | some d => exact ⟨.insert k d, mem_edits.mpr ⟨h, hd.symm⟩, rfl⟩

variable (desired applied definition)

/-- The edits of a plan are made under the keys that it lists as created, updated or removed. -/
theorem map_key_edits : let p := between desired applied definition
    (p.edits desired).map Edit.key = p.create ++ p.update ++ p.remove := by
  intro p
  have hwanted : ∀ k ∈ p.create ++ p.update, ∃ d, desired.find? k = some d := by
    intro k hk
    rcases List.mem_append.mp hk with hk | hk
    · obtain ⟨d, hd, -⟩ := mem_create.mp hk
      exact ⟨d, hd⟩
    · obtain ⟨d, -, hd, -⟩ := mem_update.mp hk
      exact ⟨d, hd⟩
  have herase : (p.remove.map fun k => (Edit.erase k : Edit κ δ)).map Edit.key = p.remove := by
    rw [List.map_map]
    exact List.map_id _
  rw [edits, List.map_append, map_key_inserts hwanted, herase]

/-- No key is listed twice. -/
theorem nodup_between : let p := between desired applied definition
    (p.create ++ p.update ++ p.unchanged ++ p.remove).Nodup := by
  intro p
  have hcreate : p.create.Nodup := Keyed.nodup_keys _
  have hupdate : p.update.Nodup := Keyed.nodup_keys _
  have hunchanged : p.unchanged.Nodup := Keyed.nodup_keys _
  have hremove : p.remove.Nodup := Keyed.nodup_keys _
  -- What is known of a key in one of the lists keeps it out of the others.
  refine List.nodup_append'.mpr ⟨List.nodup_append'.mpr ⟨List.nodup_append'.mpr
    ⟨hcreate, hupdate, ?_⟩, hunchanged, ?_⟩, hremove, ?_⟩
  · intro k hk hk'
    obtain ⟨d, -, hnone⟩ := mem_create.mp hk
    obtain ⟨-, a, -, ha, -⟩ := mem_update.mp hk'
    cases hnone.symm.trans ha
  · intro k hk hk'
    obtain ⟨d, a, hd, ha, heq⟩ := mem_unchanged.mp hk'
    rcases List.mem_append.mp hk with hk | hk
    · obtain ⟨-, -, hnone⟩ := mem_create.mp hk
      cases hnone.symm.trans ha
    · obtain ⟨d', a', hd', ha', hne⟩ := mem_update.mp hk
      cases hd.symm.trans hd'
      cases ha.symm.trans ha'
      exact hne heq
  · intro k hk hk'
    obtain ⟨-, -, hnone⟩ := mem_remove.mp hk'
    have hwanted : ∃ d, desired.find? k = some d := by
      rcases List.mem_append.mp hk with hk | hk
      · rcases List.mem_append.mp hk with hk | hk
        · obtain ⟨d, hd, -⟩ := mem_create.mp hk
          exact ⟨d, hd⟩
        · obtain ⟨d, -, hd, -⟩ := mem_update.mp hk
          exact ⟨d, hd⟩
      · obtain ⟨d, -, hd, -⟩ := mem_unchanged.mp hk
        exact ⟨d, hd⟩
    obtain ⟨d, hd⟩ := hwanted
    cases hnone.symm.trans hd

/-- Every key of one of the collections is listed. -/
theorem mem_between {k : κ} : let p := between desired applied definition
    k ∈ p.create ++ p.update ++ p.unchanged ++ p.remove ↔
      k ∈ desired.keys ∨ k ∈ applied.keys := by
  intro p
  rw [List.mem_append, List.mem_append, List.mem_append, mem_create, mem_update, mem_unchanged,
    mem_remove, Keyed.mem_keys_iff, Keyed.mem_keys_iff, Keyed.contains, Keyed.contains]
  cases desired.find? k with
  | none => simp [Option.isSome_iff_exists]
  | some d =>
    cases applied.find? k with
    | none => simp
    | some a => by_cases h : definition a = d <;> simp [h]

theorem nodup_edits : ((between desired applied definition).edits desired).Nodup := by
  have hkeys := nodup_between desired applied definition
  refine List.Nodup.of_map Edit.key ?_
  rw [map_key_edits]
  refine hkeys.sublist (List.Sublist.append ?_ (List.Sublist.refl _))
  exact List.sublist_append_left _ _

theorem isNoop_iff_edits : (between desired applied definition).isNoop = true ↔
    (between desired applied definition).edits desired = [] := by
  rw [← List.map_eq_nil_iff (f := Edit.key), map_key_edits, List.append_eq_nil_iff,
    List.append_eq_nil_iff, isNoop, Bool.and_eq_true, Bool.and_eq_true, List.isEmpty_iff,
    List.isEmpty_iff, List.isEmpty_iff]

end Between

/-! ### The least edit -/

section Least

variable [Ord κ] [Std.TransOrd κ] [Std.LawfulEqOrd κ] [DecidableEq δ] (desired : Keyed κ δ)
  (applied : Keyed κ α) (definition : α → δ)

/-- The edits of a plan lead to what is wanted. -/
theorem edited_edits : (applied.mapValues definition).edited
    ((between desired applied definition).edits desired) = desired := by
  classical
  refine Keyed.ext_find? fun k => ?_
  rcases Keyed.find?_edited_cases (applied.mapValues definition)
    ((between desired applied definition).edits desired) k with ⟨hnone, hsame⟩ | ⟨e, he, rfl, hlast⟩
  · -- Without an edit for the key, the collections agree under it.
    rw [hsame]
    by_contra hdiffer
    obtain ⟨e, he, hkey⟩ := exists_mem_edits hdiffer
    exact hnone e he hkey
  · rw [hlast]
    exact (mem_edits.mp he).2

variable {desired applied definition}

/-- Changes that lead to what is wanted are the edits of the plan, at least: where the collections
differ somebody must have changed something, and the last one to do so has left what is wanted. -/
theorem edits_subset_of_edited {es : List (Edit κ δ)}
    (h : (applied.mapValues definition).edited es = desired) :
    (between desired applied definition).edits desired ⊆ es := by
  classical
  intro e he
  obtain ⟨hdiffer, hwanted⟩ := mem_edits.mp he
  rcases Keyed.find?_edited_cases (applied.mapValues definition) es e.key with
    ⟨-, hsame⟩ | ⟨e', he', hkey, hlast⟩
  · rw [h] at hsame
    exact absurd hsame.symm hdiffer
  · rw [h] at hlast
    rw [Edit.ext_key hkey.symm (hwanted.trans hlast)]
    exact he'

/-- Nothing has to be done exactly if what is wanted has been applied. -/
theorem isNoop_between_iff : (between desired applied definition).isNoop = true ↔
    applied.mapValues definition = desired := by
  rw [isNoop_iff_edits]
  constructor
  · intro h
    have hreach := edited_edits desired applied definition
    rwa [h] at hreach
  · intro h
    have hsubset : (between desired applied definition).edits desired ⊆ [] :=
      edits_subset_of_edited h
    exact List.subset_nil.mp hsubset

end Least

/-- A plan is the least edit that leads from what has been applied to what is wanted. Its lists
ascend and share the keys of the two collections out among them: a key that is wanted only is
created, one that is applied only is removed, and one of both is unchanged or updated as its
definitions agree or do not. Inserting what is wanted under the keys that are created or updated and
erasing those that are removed gives what is wanted, and all of these edits are among any changes
that do so. No edit is needed exactly if the definitions that have been applied are the wanted
ones. -/
theorem between_minimal [Ord κ] [Std.TransOrd κ] [Std.LawfulEqOrd κ] [DecidableEq δ]
    (desired : Keyed κ δ) (applied : Keyed κ α) (definition : α → δ) :
    let p := between desired applied definition
    let current := applied.mapValues definition
    (∀ l ∈ [p.create, p.update, p.unchanged, p.remove],
      l.Pairwise fun a b => compare a b = .lt) ∧
    (p.create ++ p.update ++ p.unchanged ++ p.remove).Nodup ∧
    (∀ k, k ∈ p.create ++ p.update ++ p.unchanged ++ p.remove ↔
      k ∈ desired.keys ∨ k ∈ applied.keys) ∧
    (∀ k, k ∈ p.create ↔ k ∈ desired.keys ∧ k ∉ applied.keys) ∧
    (∀ k, k ∈ p.remove ↔ k ∈ applied.keys ∧ k ∉ desired.keys) ∧
    (∀ k, k ∈ p.unchanged ↔
      ∃ d a, desired.find? k = some d ∧ applied.find? k = some a ∧ definition a = d) ∧
    (∀ k, k ∈ p.update ↔
      ∃ d a, desired.find? k = some d ∧ applied.find? k = some a ∧ definition a ≠ d) ∧
    (p.edits desired).map Edit.key = p.create ++ p.update ++ p.remove ∧
    current.edited (p.edits desired) = desired ∧
    (∀ es : List (Edit κ δ), current.edited es = desired →
      p.edits desired ⊆ es ∧ (p.edits desired).length ≤ es.length) ∧
    (p.isNoop = true ↔ current = desired) := by
  intro p current
  refine ⟨?ascending, nodup_between desired applied definition,
    fun k => mem_between desired applied definition, fun k => ?created, fun k => ?removed,
    fun k => mem_unchanged, fun k => mem_update, map_key_edits desired applied definition,
    edited_edits desired applied definition, fun es hes => ?least, isNoop_between_iff⟩
  case ascending =>
    simp only [List.forall_mem_cons]
    exact ⟨Keyed.pairwise_keys _, Keyed.pairwise_keys _, Keyed.pairwise_keys _,
      Keyed.pairwise_keys _, List.forall_mem_nil _⟩
  case created =>
    rw [mem_create, Keyed.mem_keys_iff, Keyed.mem_keys_iff, Keyed.contains, Keyed.contains]
    cases desired.find? k <;> cases applied.find? k <;> simp
  case removed =>
    rw [mem_remove, Keyed.mem_keys_iff, Keyed.mem_keys_iff, Keyed.contains, Keyed.contains]
    cases desired.find? k <;> cases applied.find? k <;> simp
  case least =>
    have hsubset : p.edits desired ⊆ es := edits_subset_of_edited hes
    have hnodup : (p.edits desired).Nodup := nodup_edits desired applied definition
    exact ⟨hsubset, (hnodup.subperm hsubset).length_le⟩

/-- Three edits lead from what has been applied here to what is wanted, and no two changes do. -/
theorem between_minimal_three :
    let desired : Keyed Nat Char := .ofList [(1, 'a'), (2, 'b'), (3, 'c')]
    let applied : Keyed Nat (Char × Nat) := .ofList [(1, ('a', 7)), (2, ('x', 8)), (9, ('z', 9))]
    let p := between desired applied Prod.fst
    p = ⟨[3], [2], [1], [9]⟩ ∧
    p.edits desired = [.insert 3 'c', .insert 2 'b', .erase 9] ∧
    (applied.mapValues Prod.fst).edited (p.edits desired) = desired ∧
    ∀ es, (applied.mapValues Prod.fst).edited es = desired → 3 ≤ es.length := by
  intro desired applied p
  obtain ⟨-, -, -, -, -, -, -, -, hreach, hleast, -⟩ := between_minimal desired applied Prod.fst
  exact ⟨by decide, by decide, hreach, fun es hes => (hleast es hes).2⟩

end ChangePlan

end NodeLending
