import Mathlib.Data.List.Nodup
import NodeLending.Pass.Change

/-!
# What a revision asks for

The changes of a pass are those that one gets by looking at each name on its own: at what is
declared under it and at what the pool has there. Every name is listed at most once, so no change of
a pass depends on another one.

## Main definitions

* `Change.of?`: the change for what is declared and what the pool has.
* `Change.before`, `Change.declared?`: both, read off a change.

## Main results

* `Change.mem_plan`: the changes of a pass, name by name.
* `Change.nodup_plan`: no name is listed twice.
-/

namespace NodeLending

namespace Change

/-! ### One name -/

/-- The change for what is declared under a name and what the pool has there. -/
def of? : Option NodeDefinition → Option ManagedNode → Option Change
  | some d, some node => some (if node.definition = d then keep node else redefine node d)
  | some d, none => some (create d)
  | none, some node => some (retire node)
  | none, none => none

/-- What the pool has under the name. -/
def before : Change → Option ManagedNode
  | keep node | redefine node _ | retire node => some node
  | create _ => none

/-- What is declared under the name. -/
def declared? : Change → Option NodeDefinition
  | keep node => some node.definition
  | create d | redefine _ d => some d
  | retire _ => none

variable {name : NodeName} {c : Change} {declared : Keyed NodeName NodeDefinition}
  {inventory : Inventory}

/-- A change tells what it has been chosen for. -/
theorem eq_of_of? {d : Option NodeDefinition} {node : Option ManagedNode}
    (h : of? d node = some c) : node = c.before ∧ d = c.declared? := by
  cases d with
  | none =>
    cases node with
    | none => cases h
    | some node =>
      cases h
      exact ⟨rfl, rfl⟩
  | some d =>
    cases node with
    | none =>
      cases h
      exact ⟨rfl, rfl⟩
    | some node =>
      rw [of?, Option.some.injEq] at h
      split at h
      · next heq =>
        subst h heq
        exact ⟨rfl, rfl⟩
      · subst h
        exact ⟨rfl, rfl⟩

/-! ### The parts of a plan -/

/-- The names of a list for which there is a change, each with its change. -/
def tagged (l : List NodeName) (g : NodeName → Option Change) : List (NodeName × Change) :=
  l.filterMap fun n => (g n).map (n, ·)

section Tagged

variable {l : List NodeName} {g : NodeName → Option Change}

theorem mem_tagged : (name, c) ∈ tagged l g ↔ name ∈ l ∧ g name = some c := by
  simp only [tagged, List.mem_filterMap, Option.map_eq_some_iff, Prod.mk.injEq]
  constructor
  · rintro ⟨n, hn, c', hc, rfl, rfl⟩
    exact ⟨hn, hc⟩
  · rintro ⟨hn, hc⟩
    exact ⟨name, hn, c, hc, rfl, rfl⟩

theorem nodup_tagged (hl : l.Nodup) : (tagged l g).Nodup := by
  refine hl.filterMap fun n n' x hn hn' => ?_
  rw [Option.mem_def, Option.map_eq_some_iff] at hn hn'
  obtain ⟨c, -, rfl⟩ := hn
  obtain ⟨c', -, heq⟩ := hn'
  exact (congrArg Prod.fst heq).symm

theorem map_fst_tagged (h : ∀ n ∈ l, (g n).isSome) : (tagged l g).map Prod.fst = l := by
  induction l with
  | nil => rfl
  | cons n l ih =>
    obtain ⟨c, hc⟩ := Option.isSome_iff_exists.mp (h n List.mem_cons_self)
    have hrest := ih fun n' hn' => h n' (List.mem_cons_of_mem n hn')
    simp only [tagged, List.filterMap_cons, hc, Option.map_some, List.map_cons] at hrest ⊢
    rw [hrest]

end Tagged

/-- The nodes that are kept. -/
def kept (declared : Keyed NodeName NodeDefinition) (inventory : Inventory) :
    List (NodeName × Change) :=
  tagged (ChangePlan.between declared inventory ManagedNode.definition).unchanged
    fun n => (inventory.find? n).map keep

/-- The nodes that are created. -/
def created (declared : Keyed NodeName NodeDefinition) (inventory : Inventory) :
    List (NodeName × Change) :=
  tagged (ChangePlan.between declared inventory ManagedNode.definition).create
    fun n => (declared.find? n).map create

/-- The nodes that are redefined. -/
def redefined (declared : Keyed NodeName NodeDefinition) (inventory : Inventory) :
    List (NodeName × Change) :=
  tagged (ChangePlan.between declared inventory ManagedNode.definition).update
    fun n => (inventory.find? n).bind fun node => (declared.find? n).map (redefine node)

/-- The nodes that are retired. -/
def retired (declared : Keyed NodeName NodeDefinition) (inventory : Inventory) :
    List (NodeName × Change) :=
  tagged (ChangePlan.between declared inventory ManagedNode.definition).remove
    fun n => (inventory.find? n).map retire

theorem plan_eq (declared : Keyed NodeName NodeDefinition) (inventory : Inventory) :
    plan declared inventory = kept declared inventory ++ created declared inventory ++
      redefined declared inventory ++ retired declared inventory := by
  have hredefined : redefined declared inventory =
      (ChangePlan.between declared inventory ManagedNode.definition).update.filterMap fun name => do
        return (name, redefine (← inventory.find? name) (← declared.find? name)) := by
    refine List.filterMap_congr fun n _ => ?_
    beta_reduce
    cases inventory.find? n <;> cases declared.find? n <;> rfl
  rw [hredefined]
  simp only [plan, kept, created, retired, tagged, Option.map_map]
  rfl

theorem mem_kept : (name, c) ∈ kept declared inventory ↔
    ∃ node, inventory.find? name = some node ∧ declared.find? name = some node.definition ∧
      c = keep node := by
  rw [kept, mem_tagged, ChangePlan.mem_unchanged, Option.map_eq_some_iff]
  constructor
  · rintro ⟨⟨d, node, hd, hnode, rfl⟩, node', hnode', rfl⟩
    cases hnode.symm.trans hnode'
    exact ⟨node, hnode, hd, rfl⟩
  · rintro ⟨node, hnode, hd, rfl⟩
    exact ⟨⟨_, node, hd, hnode, rfl⟩, node, hnode, rfl⟩

theorem mem_created : (name, c) ∈ created declared inventory ↔
    ∃ d, inventory.find? name = none ∧ declared.find? name = some d ∧ c = create d := by
  rw [created, mem_tagged, ChangePlan.mem_create, Option.map_eq_some_iff]
  constructor
  · rintro ⟨⟨d, hd, hnone⟩, d', hd', rfl⟩
    exact ⟨d', hnone, hd', rfl⟩
  · rintro ⟨d, hnone, hd, rfl⟩
    exact ⟨⟨d, hd, hnone⟩, d, hd, rfl⟩

theorem mem_redefined : (name, c) ∈ redefined declared inventory ↔
    ∃ node d, inventory.find? name = some node ∧ declared.find? name = some d ∧
      node.definition ≠ d ∧ c = redefine node d := by
  simp only [redefined, mem_tagged, ChangePlan.mem_update, Option.bind_eq_some_iff,
    Option.map_eq_some_iff]
  constructor
  · rintro ⟨⟨d, node, hd, hnode, hne⟩, node', hnode', d', hd', rfl⟩
    cases hnode.symm.trans hnode'
    cases hd.symm.trans hd'
    exact ⟨node, d, hnode, hd, hne, rfl⟩
  · rintro ⟨node, d, hnode, hd, hne, rfl⟩
    exact ⟨⟨d, node, hd, hnode, hne⟩, node, hnode, d, hd, rfl⟩

theorem mem_retired : (name, c) ∈ retired declared inventory ↔
    ∃ node, inventory.find? name = some node ∧ declared.find? name = none ∧ c = retire node := by
  rw [retired, mem_tagged, ChangePlan.mem_remove, Option.map_eq_some_iff]
  constructor
  · rintro ⟨⟨node, hnode, hnone⟩, node', hnode', rfl⟩
    exact ⟨node', hnode', hnone, rfl⟩
  · rintro ⟨node, hnode, hnone, rfl⟩
    exact ⟨⟨node, hnode, hnone⟩, node, hnode, rfl⟩

/-! ### The whole plan -/

/-- The changes of a pass are found by looking at each name on its own. -/
theorem mem_plan : (name, c) ∈ plan declared inventory ↔
    of? (declared.find? name) (inventory.find? name) = some c := by
  simp only [plan_eq, List.mem_append, mem_kept, mem_created, mem_redefined, mem_retired]
  cases hd : declared.find? name with
  | none =>
    cases hi : inventory.find? name with
    | none => simp [of?]
    | some node => simp [of?, eq_comm]
  | some d =>
    cases hi : inventory.find? name with
    | none => simp [of?, eq_comm]
    | some node =>
      by_cases heq : node.definition = d
      · simp [of?, heq, eq_comm]
      · simp [of?, heq, Ne.symm heq, eq_comm]

/-- What a plan lists is what the pool has and what is declared. -/
theorem eq_of_mem_plan (h : (name, c) ∈ plan declared inventory) :
    inventory.find? name = c.before ∧ declared.find? name = c.declared? :=
  eq_of_of? (mem_plan.mp h)

/-- No name is listed twice. -/
theorem nodup_plan (declared : Keyed NodeName NodeDefinition) (inventory : Inventory) :
    ((plan declared inventory).map Prod.fst).Nodup := by
  have hfun : ∀ x ∈ plan declared inventory, ∀ y ∈ plan declared inventory,
      x.1 = y.1 → x = y := by
    rintro ⟨n, c⟩ hx ⟨n', c'⟩ hy (rfl : n = n')
    have heq := (mem_plan.mp hx).symm.trans (mem_plan.mp hy)
    rw [Option.some.inj heq]
  refine List.Nodup.map_on hfun ?_
  -- The parts have no change in common, since each has changes of its own kind.
  have hkept : (kept declared inventory).Nodup := nodup_tagged (Keyed.nodup_keys _)
  have hcreated : (created declared inventory).Nodup := nodup_tagged (Keyed.nodup_keys _)
  have hredefined : (redefined declared inventory).Nodup := nodup_tagged (Keyed.nodup_keys _)
  have hretired : (retired declared inventory).Nodup := nodup_tagged (Keyed.nodup_keys _)
  rw [plan_eq]
  refine List.nodup_append'.mpr ⟨List.nodup_append'.mpr ⟨List.nodup_append'.mpr
    ⟨hkept, hcreated, ?_⟩, hredefined, ?_⟩, hretired, ?_⟩
  · rintro ⟨n, c⟩ hx hy
    obtain ⟨node, -, -, rfl⟩ := mem_kept.mp hx
    obtain ⟨d, -, -, heq⟩ := mem_created.mp hy
    cases heq
  · rintro ⟨n, c⟩ hx hy
    obtain ⟨node, d, -, -, -, rfl⟩ := mem_redefined.mp hy
    simp [mem_kept, mem_created] at hx
  · rintro ⟨n, c⟩ hx hy
    obtain ⟨node, -, -, rfl⟩ := mem_retired.mp hy
    simp [mem_kept, mem_created, mem_redefined] at hx

/-! ### The names of a plan -/

theorem map_fst_plan (declared : Keyed NodeName NodeDefinition) (inventory : Inventory) :
    let p := ChangePlan.between declared inventory ManagedNode.definition
    (plan declared inventory).map Prod.fst = p.unchanged ++ p.create ++ p.update ++ p.remove := by
  intro p
  have hkept : (kept declared inventory).map Prod.fst = p.unchanged := by
    refine map_fst_tagged fun n hn => ?_
    obtain ⟨d, node, -, hnode, -⟩ := ChangePlan.mem_unchanged.mp hn
    rw [hnode]
    rfl
  have hcreated : (created declared inventory).map Prod.fst = p.create := by
    refine map_fst_tagged fun n hn => ?_
    obtain ⟨d, hd, -⟩ := ChangePlan.mem_create.mp hn
    rw [hd]
    rfl
  have hredefined : (redefined declared inventory).map Prod.fst = p.update := by
    refine map_fst_tagged fun n hn => ?_
    obtain ⟨d, node, hd, hnode, -⟩ := ChangePlan.mem_update.mp hn
    rw [hnode, hd]
    rfl
  have hretired : (retired declared inventory).map Prod.fst = p.remove := by
    refine map_fst_tagged fun n hn => ?_
    obtain ⟨node, hnode, -⟩ := ChangePlan.mem_remove.mp hn
    rw [hnode]
    rfl
  simp only [plan_eq, List.map_append, hkept, hcreated, hredefined, hretired]

end Change

/-- A plan looks at the definitions that have been applied only. -/
theorem ChangePlan.between_congr {κ δ α : Type} [Ord κ] [Std.TransOrd κ] [Std.LawfulEqOrd κ]
    [DecidableEq δ] {desired : Keyed κ δ} {applied applied' : Keyed κ α} {definition : α → δ}
    (h : ∀ k, (applied.find? k).map definition = (applied'.find? k).map definition) :
    between desired applied definition = between desired applied' definition := by
  have hany : ∀ (k : κ) (q : δ → Bool), ((applied.find? k).any fun a => q (definition a)) =
      (applied'.find? k).any fun a => q (definition a) := by
    intro k q
    have hmap := congrArg (Option.any q) (h k)
    rwa [Option.any_map, Option.any_map] at hmap
  have hcontains : ∀ k, applied.contains k = applied'.contains k := by
    intro k
    have hmap := congrArg Option.isSome (h k)
    rwa [Option.isSome_map, Option.isSome_map] at hmap
  have hremove : (applied.filter fun k _ => !desired.contains k).keys =
      (applied'.filter fun k _ => !desired.contains k).keys := by
    refine Keyed.keys_eq_of_contains_eq fun k => ?_
    have hk := hcontains k
    simp only [Keyed.contains, Keyed.find?_filter] at hk ⊢
    cases desired.find? k <;> simp_all
  simp only [between, hcontains, hremove]
  congr 1
  · exact congrArg (fun f => (desired.filter f).keys) (funext₂ fun k d => hany k (decide <| · ≠ d))
  · exact congrArg (fun f => (desired.filter f).keys) (funext₂ fun k d => hany k (decide <| · = d))

end NodeLending
