/-!
# Finite maps in ascending key order

A keyed collection lists its entries with strictly ascending keys. The order is part of what
answers show, so it is kept in the type: two collections with the same lookups are equal, and
listing one needs no sorting.

## Main definitions

* `Keyed`: the type, with `find?`, `insert`, `erase`, `keys`, `filter` and `mapValues`.

## Main results

* `Keyed.ext_find?`: collections with the same lookups are equal.
* `Keyed.find?_insert`, `Keyed.find?_erase`, `Keyed.find?_filter`, `Keyed.find?_mapValues`: what
  each operation does to a lookup.
* `Keyed.find?_ofList`: in the map of a list the last value of a key counts.
-/

namespace NodeLending

/-- A finite map, listed with strictly ascending keys. -/
structure Keyed (κ : Type) [Ord κ] (β : Type) where
  /-- The entries. -/
  entries : List (κ × β)
  /-- Keys ascend strictly from each entry to every later one. -/
  ascending : entries.Pairwise (fun a b => compare a.1 b.1 = .lt)

namespace Keyed

variable {κ β γ : Type} [Ord κ]

/-! ### Entry lists -/

/-- The first value stored under `k`. -/
def lookup (k : κ) : List (κ × β) → Option β
  | [] => none
  | (k', v) :: rest => if compare k k' = .eq then some v else lookup k rest

/-- Put `v` under `k`, replacing what is there. -/
def place (k : κ) (v : β) : List (κ × β) → List (κ × β)
  | [] => [(k, v)]
  | (k', v') :: rest =>
    match compare k k' with
    | .lt => (k, v) :: (k', v') :: rest
    | .eq => (k, v) :: rest
    | .gt => (k', v') :: place k v rest

theorem fst_mem_place {k : κ} {v : β} {l : List (κ × β)} {p : κ × β}
    (h : p ∈ place k v l) : p.1 = k ∨ p ∈ l := by
  induction l with
  | nil => simp_all [place]
  | cons q rest ih =>
    obtain ⟨k', v'⟩ := q
    rw [place] at h
    split at h
    · rcases List.mem_cons.1 h with rfl | h
      · exact .inl rfl
      · exact .inr h
    · rcases List.mem_cons.1 h with rfl | h
      · exact .inl rfl
      · exact .inr (List.mem_cons_of_mem _ h)
    · rcases List.mem_cons.1 h with rfl | h
      · exact .inr List.mem_cons_self
      · exact (ih h).imp_right (List.mem_cons_of_mem _)

/-! ### The operations -/

/-- The map without entries. -/
def empty : Keyed κ β := ⟨[], .nil⟩

instance : EmptyCollection (Keyed κ β) := ⟨empty⟩

instance : Inhabited (Keyed κ β) := ⟨empty⟩

/-- The value under `k`. -/
def find? (m : Keyed κ β) (k : κ) : Option β := lookup k m.entries

/-- Whether there is a value under `k`. -/
def contains (m : Keyed κ β) (k : κ) : Bool := (m.find? k).isSome

/-- Keep the entries that `p` accepts. -/
def filter (p : κ → β → Bool) (m : Keyed κ β) : Keyed κ β :=
  ⟨m.entries.filter (fun e => p e.1 e.2), m.ascending.filter _⟩

/-- Drop the entry under `k`. -/
def erase (m : Keyed κ β) (k : κ) : Keyed κ β :=
  m.filter (fun k' _ => compare k k' != .eq)

/-- Apply `f` to every value. -/
def mapValues (f : β → γ) (m : Keyed κ β) : Keyed κ γ :=
  ⟨m.entries.map (fun e => (e.1, f e.2)), by
    rw [List.pairwise_map]
    exact m.ascending⟩

/-- The keys, ascending. -/
def keys (m : Keyed κ β) : List κ := m.entries.map Prod.fst

/-- The values, by ascending key. -/
def values (m : Keyed κ β) : List β := m.entries.map Prod.snd

/-- The number of entries. -/
def size (m : Keyed κ β) : Nat := m.entries.length

/-- Whether there is no entry. -/
def isEmpty (m : Keyed κ β) : Bool := m.entries.isEmpty

instance [DecidableEq κ] [DecidableEq β] : DecidableEq (Keyed κ β) := fun a b =>
  if h : a.entries = b.entries then
    .isTrue (by cases a; cases b; simp_all)
  else .isFalse (fun e => h (e ▸ rfl))

instance [Repr κ] [Repr β] : Repr (Keyed κ β) := ⟨fun m p => reprPrec m.entries p⟩

@[simp] theorem find?_empty (k : κ) : (empty : Keyed κ β).find? k = none := rfl

theorem lookup_map (f : β → γ) (j : κ) (l : List (κ × β)) :
    lookup j (l.map (fun e => (e.1, f e.2))) = (lookup j l).map f := by
  induction l with
  | nil => rfl
  | cons q rest ih =>
    rw [List.map_cons, lookup, lookup]
    split
    · rfl
    · exact ih

theorem lookup_append (k : κ) (l₁ l₂ : List (κ × β)) :
    lookup k (l₁ ++ l₂) = (lookup k l₁).or (lookup k l₂) := by
  induction l₁ with
  | nil => rfl
  | cons q rest ih =>
    rw [List.cons_append, lookup, lookup]
    split
    · rfl
    · exact ih

/-- A lookup after the values have been mapped. -/
@[simp] theorem find?_mapValues (f : β → γ) (m : Keyed κ β) (j : κ) :
    (m.mapValues f).find? j = (m.find? j).map f :=
  lookup_map f j m.entries

theorem keys_mapValues (f : β → γ) (m : Keyed κ β) : (m.mapValues f).keys = m.keys := by
  rw [keys, mapValues, List.map_map]
  rfl

/-- The keys ascend strictly. -/
theorem pairwise_keys (m : Keyed κ β) : m.keys.Pairwise (fun a b => compare a b = .lt) := by
  rw [keys, List.pairwise_map]
  exact m.ascending

/-- No key is listed twice. -/
theorem nodup_keys [Std.ReflOrd κ] (m : Keyed κ β) : m.keys.Nodup :=
  m.pairwise_keys.imp fun {a b} hlt heq => by
    rw [heq, Std.ReflOrd.compare_self] at hlt
    cases hlt

/-! ### Lookups and the entry list -/

section LawfulEq

variable [Std.LawfulEqOrd κ]

theorem lookup_filter_key (p : κ → Bool) (j : κ) (l : List (κ × β)) :
    lookup j (l.filter (fun e => p e.1)) = if p j then lookup j l else none := by
  induction l with
  | nil => simp [lookup]
  | cons q rest ih =>
    obtain ⟨k', v'⟩ := q
    rw [List.filter_cons]
    by_cases hj : compare j k' = .eq
    · have : j = k' := Std.LawfulEqCmp.eq_of_compare hj
      subst this
      by_cases hp : p j <;> simp [hp, lookup, ih]
    · by_cases hp : p k'
      · simp [hp, lookup, hj, ih]
      · simp [hp, lookup, hj, ih]

/-- A lookup after an erasure. -/
theorem find?_erase [DecidableEq κ] (m : Keyed κ β) (k j : κ) :
    (m.erase k).find? j = if j = k then none else m.find? j := by
  have h := lookup_filter_key (fun k' => compare k k' != .eq) j m.entries
  rw [find?, erase, filter, h]
  by_cases hjk : j = k
  · subst hjk
    simp
  · have : compare k j ≠ .eq := fun e => hjk (Std.LawfulEqCmp.eq_of_compare e).symm
    simp [hjk, this, find?]

/-- A lookup among entries with different keys. -/
theorem lookup_eq_some_iff_of_nodup {l : List (κ × β)} (h : (l.map Prod.fst).Nodup) {j : κ} {v : β} :
    lookup j l = some v ↔ (j, v) ∈ l := by
  induction l with
  | nil => simp [lookup]
  | cons q rest ih =>
    obtain ⟨k', v'⟩ := q
    obtain ⟨hq, hrest⟩ := List.nodup_cons.1 h
    rw [lookup]
    by_cases hj : compare j k' = .eq
    · have : j = k' := Std.LawfulEqCmp.eq_of_compare hj
      subst this
      have hnot : (j, v) ∉ rest := fun hmem => hq (List.mem_map.2 ⟨_, hmem, rfl⟩)
      rw [if_pos hj]
      simp [hnot, eq_comm]
    · rw [if_neg hj, ih hrest, List.mem_cons]
      constructor
      · exact .inr
      · rintro (heq | hmem)
        · cases heq
          exact absurd Std.ReflCmp.compare_self hj
        · exact hmem

theorem lookup_eq_some_iff {l : List (κ × β)}
    (h : l.Pairwise (fun a b => compare a.1 b.1 = .lt)) {j : κ} {v : β} :
    lookup j l = some v ↔ (j, v) ∈ l :=
  lookup_eq_some_iff_of_nodup (nodup_keys ⟨l, h⟩)

/-- An entry is listed exactly when its key leads to its value. -/
theorem mem_entries_iff (m : Keyed κ β) {j : κ} {v : β} :
    (j, v) ∈ m.entries ↔ m.find? j = some v :=
  (lookup_eq_some_iff m.ascending).symm

/-- A lookup after entries have been dropped. -/
theorem find?_filter (p : κ → β → Bool) (m : Keyed κ β) (j : κ) :
    (m.filter p).find? j = (m.find? j).filter (p j) := by
  ext v
  rw [← mem_entries_iff, filter, List.mem_filter, mem_entries_iff, Option.filter_eq_some_iff]

theorem isSome_lookup_iff {k : κ} {l : List (κ × β)} :
    (lookup k l).isSome = true ↔ k ∈ l.map Prod.fst := by
  induction l with
  | nil => simp [lookup]
  | cons q rest ih =>
    rw [lookup, List.map_cons, List.mem_cons, ← ih]
    by_cases hk : compare k q.1 = .eq
    · simp [Std.LawfulEqCmp.eq_of_compare hk]
    · have hne : k ≠ q.1 := fun heq => hk (heq ▸ Std.ReflCmp.compare_self)
      simp [hk, hne]

/-- A key is listed exactly when it has a value. -/
theorem mem_keys_iff (m : Keyed κ β) {j : κ} : j ∈ m.keys ↔ m.contains j = true :=
  isSome_lookup_iff.symm

/-- The values are what the keys lead to. -/
theorem mem_values {m : Keyed κ β} {v : β} : v ∈ m.values ↔ ∃ k, m.find? k = some v := by
  rw [values, List.mem_map]
  constructor
  · rintro ⟨⟨k, v⟩, hentry, rfl⟩
    exact ⟨k, m.mem_entries_iff.mp hentry⟩
  · rintro ⟨k, hk⟩
    exact ⟨(k, v), m.mem_entries_iff.mpr hk, rfl⟩

/-- A key is kept exactly when its entry is accepted. -/
theorem mem_keys_filter {p : κ → β → Bool} {m : Keyed κ β} {j : κ} :
    j ∈ (m.filter p).keys ↔ ∃ v, m.find? j = some v ∧ p j v = true := by
  rw [mem_keys_iff, contains, find?_filter, Option.isSome_iff_exists]
  exact exists_congr fun v => Option.filter_eq_some_iff

end LawfulEq

/-! ### Insertion -/

variable [Std.TransOrd κ] [Std.LawfulEqOrd κ]

theorem pairwise_place (k : κ) (v : β) {l : List (κ × β)}
    (h : l.Pairwise (fun a b => compare a.1 b.1 = .lt)) :
    (place k v l).Pairwise (fun a b => compare a.1 b.1 = .lt) := by
  induction l with
  | nil => simp [place]
  | cons q rest ih =>
    obtain ⟨k', v'⟩ := q
    obtain ⟨hq, hrest⟩ := List.pairwise_cons.1 h
    rw [place]
    split
    · next hlt =>
      refine List.pairwise_cons.2 ⟨fun p hp => ?_, h⟩
      rcases List.mem_cons.1 hp with rfl | hp
      · exact hlt
      · exact Std.TransCmp.lt_trans hlt (hq p hp)
    · next heq =>
      have hk : k = k' := Std.LawfulEqCmp.eq_of_compare heq
      subst hk
      exact List.pairwise_cons.2 ⟨hq, hrest⟩
    · next hgt =>
      refine List.pairwise_cons.2 ⟨fun p hp => ?_, ih hrest⟩
      rcases fst_mem_place hp with heq | hp
      · simpa [heq] using Std.OrientedCmp.lt_of_gt hgt
      · exact hq p hp

/-- Put `v` under `k`, replacing what is there. -/
def insert (m : Keyed κ β) (k : κ) (v : β) : Keyed κ β :=
  ⟨place k v m.entries, pairwise_place k v m.ascending⟩

/-- Insert the entries of a list from left to right, so that the last one of a key stays. -/
def ofList (l : List (κ × β)) : Keyed κ β :=
  l.foldl (fun m e => m.insert e.1 e.2) empty

/-! ### Lookups after an insertion, and extensionality -/

theorem lookup_place (k j : κ) (v : β) (l : List (κ × β)) :
    lookup j (place k v l) = if compare j k = .eq then some v else lookup j l := by
  induction l with
  | nil => simp [place, lookup]
  | cons q rest ih =>
    obtain ⟨k', v'⟩ := q
    rw [place]
    split
    · simp [lookup]
    · next heq =>
      have hk : k = k' := Std.LawfulEqCmp.eq_of_compare heq
      subst hk
      by_cases h : compare j k = .eq <;> simp [lookup, h]
    · next hgt =>
      rw [lookup, ih, lookup]
      by_cases hj : compare j k' = .eq
      · have : j = k' := Std.LawfulEqCmp.eq_of_compare hj
        subst this
        have : compare j k ≠ .eq := by
          rw [@Std.OrientedCmp.eq_swap κ compare, hgt]
          decide
        simp [this]
      · simp [hj]

/-- A lookup after an insertion. -/
theorem find?_insert [DecidableEq κ] (m : Keyed κ β) (k j : κ) (v : β) :
    (m.insert k v).find? j = if j = k then some v else m.find? j := by
  simp [find?, insert, lookup_place]

theorem find?_foldl_insert (l : List (κ × β)) (m : Keyed κ β) (k : κ) :
    (l.foldl (fun m e => m.insert e.1 e.2) m).find? k = (lookup k l.reverse).or (m.find? k) := by
  induction l generalizing m with
  | nil => rfl
  | cons e l ih =>
    rw [List.foldl_cons, ih, List.reverse_cons, lookup_append, Option.or_assoc, find?, insert,
      lookup_place, lookup]
    split <;> rfl

/-- In the map of a list the last value of a key counts. -/
theorem find?_ofList (l : List (κ × β)) (k : κ) : (ofList l).find? k = lookup k l.reverse := by
  rw [ofList, find?_foldl_insert, find?_empty, Option.or_none]

/-- The keys of a list are those of its entries. -/
theorem contains_ofList (l : List (κ × β)) (k : κ) :
    (ofList l).contains k = true ↔ k ∈ l.map Prod.fst := by
  rw [contains, find?_ofList, isSome_lookup_iff, List.map_reverse, List.mem_reverse]

theorem eq_of_mem_iff {l₁ l₂ : List (κ × β)}
    (h₁ : l₁.Pairwise (fun a b => compare a.1 b.1 = .lt))
    (h₂ : l₂.Pairwise (fun a b => compare a.1 b.1 = .lt))
    (h : ∀ e, e ∈ l₁ ↔ e ∈ l₂) : l₁ = l₂ := by
  induction l₁ generalizing l₂ with
  | nil =>
    cases l₂ with
    | nil => rfl
    | cons b _ => exact absurd ((h b).2 List.mem_cons_self) (by simp)
  | cons a t ih =>
    cases l₂ with
    | nil => exact absurd ((h a).1 List.mem_cons_self) (by simp)
    | cons b u =>
      obtain ⟨ha, ht⟩ := List.pairwise_cons.1 h₁
      obtain ⟨hb, hu⟩ := List.pairwise_cons.1 h₂
      have hab : a = b := by
        rcases List.mem_cons.1 ((h a).1 List.mem_cons_self) with e | ma
        · exact e
        rcases List.mem_cons.1 ((h b).2 List.mem_cons_self) with e | mb
        · exact e.symm
        have h1 := hb a ma
        have h2 := ha b mb
        have := Std.TransCmp.lt_trans h1 h2
        exact absurd this (by simp [Std.ReflCmp.compare_self])
      subst hab
      congr 1
      refine ih ht hu fun e => ?_
      have he := h e
      rw [List.mem_cons, List.mem_cons] at he
      constructor
      · intro m
        rcases he.1 (.inr m) with rfl | m'
        · have := ha e m
          exact absurd this (by simp [Std.ReflCmp.compare_self])
        · exact m'
      · intro m
        rcases he.2 (.inr m) with rfl | m'
        · have := hb e m
          exact absurd this (by simp [Std.ReflCmp.compare_self])
        · exact m'

/-- Collections with the same lookups are equal. -/
theorem ext_find? {m₁ m₂ : Keyed κ β} (h : ∀ k, m₁.find? k = m₂.find? k) : m₁ = m₂ := by
  have : m₁.entries = m₂.entries :=
    eq_of_mem_iff m₁.ascending m₂.ascending fun e => by
      rw [m₁.mem_entries_iff, m₂.mem_entries_iff, h]
  cases m₁
  cases m₂
  simp_all

/-- What matters of a list is in which order the values of one key come. -/
theorem ofList_eq_of_filter [DecidableEq κ] {l₁ l₂ : List (κ × β)}
    (h : ∀ k, l₁.filter (fun e => e.1 == k) = l₂.filter (fun e => e.1 == k)) :
    ofList l₁ = ofList l₂ := by
  refine ext_find? fun k => ?_
  have hone : ∀ l : List (κ × β), lookup k (l.filter (fun e => e.1 == k)).reverse = lookup k l.reverse := by
    intro l
    rw [← List.filter_reverse, lookup_filter_key (· == k), if_pos (beq_self_eq_true k)]
  rw [find?_ofList, find?_ofList, ← hone, h, hone]

/-- The map of the entries of a map is the map itself. -/
theorem ofList_entries (m : Keyed κ β) : ofList m.entries = m := by
  refine ext_find? fun k => ?_
  have hnodup : (m.entries.reverse.map Prod.fst).Nodup := by
    rw [List.map_reverse]
    exact List.pairwise_reverse.2 (m.nodup_keys.imp Ne.symm)
  ext v
  rw [find?_ofList, lookup_eq_some_iff_of_nodup hnodup, List.mem_reverse, mem_entries_iff]

/-- Collections with the same keys list them in the same way. -/
theorem keys_eq_of_contains_eq {m₁ : Keyed κ β} {m₂ : Keyed κ γ}
    (h : ∀ k, m₁.contains k = m₂.contains k) : m₁.keys = m₂.keys := by
  have heq : m₁.mapValues (fun _ => ()) = m₂.mapValues fun _ => () := by
    refine ext_find? fun k => ?_
    have hk := h k
    rw [contains, contains] at hk
    rw [find?_mapValues, find?_mapValues]
    cases h₁ : m₁.find? k <;> cases h₂ : m₂.find? k <;> simp_all
  rw [← keys_mapValues (fun _ => ()) m₁, heq, keys_mapValues]

end Keyed

end NodeLending
