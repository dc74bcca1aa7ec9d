import NodeLending.Proofs.Json.Tokens

/-!
# The outline of a compact text

The compact text of a value is complete: its outline is that of the value, with nothing broken and
nothing left over. So a value that is not nested too deeply is read back from its text, and two
values with one text are equal.

## Main definitions

* `Json.Value.outline`: the outline of a value, and `Json.Value.depth`, how deeply it is nested.

## Main results

* `Json.Value.Plain.read_render`: the compact text of a plain value has the outline of the value.
* `Json.Value.Plain.read?_render`: a plain value is read back from its compact text.
* `Json.Value.Plain.render_inj`: different plain values have different texts.
-/

namespace NodeLending.Json

namespace Value

mutual

/-- The outline of a value. -/
def outline : Value → Outline
  | .null => .null
  | .bool b => .bool b
  | .number n => .number (some n)
  | .string s => .text (some s)
  | .array items => .array (itemOutlines items) true
  | .object fields => .object (fieldOutlines fields) true

/-- The outlines of the items of an array. -/
def itemOutlines : List Value → List Outline
  | [] => []
  | v :: rest => outline v :: itemOutlines rest

/-- The outlines of the fields of an object. -/
def fieldOutlines : List (String × Value) → List (Key × Outline)
  | [] => []
  | (k, v) :: rest => (.name k, outline v) :: fieldOutlines rest

end

mutual

/-- How deeply arrays and objects are nested in a value. -/
def depth : Value → Nat
  | .array items => itemsDepth items + 1
  | .object fields => fieldsDepth fields + 1
  | _ => 0

/-- How deeply arrays and objects are nested in items. -/
def itemsDepth : List Value → Nat
  | [] => 0
  | v :: rest => max (depth v) (itemsDepth rest)

/-- How deeply arrays and objects are nested in fields. -/
def fieldsDepth : List (String × Value) → Nat
  | [] => 0
  | (_, v) :: rest => max (depth v) (fieldsDepth rest)

end

theorem depth_le_of_mem_items {v : Value} {items : List Value} (h : v ∈ items) :
    v.depth ≤ itemsDepth items := by
  induction items with
  | nil => cases h
  | cons w items ih =>
    rw [itemsDepth]
    rcases List.mem_cons.mp h with rfl | h
    · exact Nat.le_max_left _ _
    · exact Nat.le_trans (ih h) (Nat.le_max_right _ _)

theorem depth_le_of_mem_fields {f : String × Value} {fields : List (String × Value)}
    (h : f ∈ fields) : f.2.depth ≤ fieldsDepth fields := by
  induction fields with
  | nil => cases h
  | cons g fields ih =>
    rw [fieldsDepth]
    rcases List.mem_cons.mp h with rfl | h
    · exact Nat.le_max_left _ _
    · exact Nat.le_trans (ih h) (Nat.le_max_right _ _)

end Value

/-! ### From tokens to outlines -/

namespace Outline

variable {stack : List Frame} {rest : List Token}

/-- What is read of the tokens of a value is its outline, whatever follows. -/
def Reads (v : Value) : Prop :=
  ∀ stack rest,
    ofTokens stack .value (v.tokens ++ rest) = ofTokens stack (.delimiter v.outline) rest

/-- No value starts with the end of an array. -/
theorem ofTokens_item (stack : List Frame) (v : Value) (rest : List Token) :
    ofTokens stack .item (v.tokens ++ rest) = ofTokens stack .value (v.tokens ++ rest) := by
  rcases stack with _ | ⟨⟨⟩, stack⟩ <;> cases v <;> rfl

theorem ofTokens_moreItemTokens {items : List Value} (h : ∀ v ∈ items, Reads v)
    (read : List Outline) (o : Outline) (stack : List Frame) (rest : List Token) :
    ofTokens (.array read :: stack) (.delimiter o)
        (Value.moreItemTokens items ++ .closeArray :: rest) =
      ofTokens stack (.delimiter (.array (read.reverse ++ o :: Value.itemOutlines items) true))
        rest := by
  induction items generalizing read o with
  | nil =>
    change ofTokens stack (.delimiter (.array (o :: read).reverse true)) rest = _
    rw [List.reverse_cons]
    rfl
  | cons v items ih =>
    have hitems := ih (fun w hw => h w (List.mem_cons_of_mem v hw)) (o :: read) v.outline
    rw [Value.moreItemTokens, List.cons_append, List.append_assoc]
    change ofTokens (.array (o :: read) :: stack) .value (v.tokens ++ _) = _
    rw [h v List.mem_cons_self, hitems, List.reverse_cons, List.append_assoc]
    rfl

theorem ofTokens_moreFieldTokens {fields : List (String × Value)} (h : ∀ f ∈ fields, Reads f.2)
    (read : List (Key × Outline)) (k : Key) (o : Outline) (stack : List Frame)
    (rest : List Token) :
    ofTokens (.field read k :: stack) (.delimiter o)
        (Value.moreFieldTokens fields ++ .closeObject :: rest) =
      ofTokens stack
        (.delimiter (.object (read.reverse ++ (k, o) :: Value.fieldOutlines fields) true)) rest := by
  induction fields generalizing read k o with
  | nil =>
    change ofTokens stack (.delimiter (.object ((k, o) :: read).reverse true)) rest = _
    rw [List.reverse_cons]
    rfl
  | cons f fields ih =>
    obtain ⟨k', v⟩ := f
    have hfields := ih (fun w hw => h w (List.mem_cons_of_mem _ hw)) ((k, o) :: read) (.name k')
      v.outline
    rw [Value.moreFieldTokens, List.cons_append, List.cons_append, List.cons_append,
      List.append_assoc]
    change ofTokens (.field ((k, o) :: read) (.name k') :: stack) .value (v.tokens ++ _) = _
    rw [h (k', v) List.mem_cons_self, hfields, List.reverse_cons, List.append_assoc]
    rfl

/-- The value of the outline of a value. -/
theorem itemsWithin_itemOutlines {d : Nat} {items : List Value}
    (h : ∀ v ∈ items, v.outline.valueWithin d = some v) :
    itemsWithin d (Value.itemOutlines items) = some items := by
  induction items with
  | nil => rfl
  | cons v items ih =>
    rw [Value.itemOutlines, itemsWithin, h v List.mem_cons_self,
      ih fun w hw => h w (List.mem_cons_of_mem v hw)]
    rfl

theorem fieldsWithin_fieldOutlines {d : Nat} {fields : List (String × Value)}
    (h : ∀ f ∈ fields, f.2.outline.valueWithin d = some f.2) :
    fieldsWithin d (Value.fieldOutlines fields) = some fields := by
  induction fields with
  | nil => rfl
  | cons f fields ih =>
    obtain ⟨k, v⟩ := f
    simp only [Value.fieldOutlines, fieldsWithin]
    rw [h (k, v) List.mem_cons_self, ih fun w hw => h w (List.mem_cons_of_mem _ hw)]
    rfl

end Outline

namespace Value.Plain

open Outline

variable {v : Value}

/-- The tokens of a plain value are read as its outline. -/
theorem outline_reads (h : v.Plain) : Outline.Reads v := by
  induction h with
  | null | bool b | integer hlow hhigh | string s => exact fun stack rest => rfl
  | @array items _ ih =>
    intro stack rest
    cases items with
    | nil => rfl
    | cons v items =>
      have hitems := ofTokens_moreItemTokens (fun w hw => ih w (List.mem_cons_of_mem v hw)) []
        v.outline stack rest
      rw [tokens, itemTokens, List.cons_append, List.append_assoc, List.append_assoc]
      change ofTokens (.array [] :: stack) .item (v.tokens ++ _) = _
      rw [ofTokens_item, ih v List.mem_cons_self]
      exact hitems
  | @object fields _ ih =>
    intro stack rest
    cases fields with
    | nil => rfl
    | cons f fields =>
      obtain ⟨k, v⟩ := f
      have hfields := ofTokens_moreFieldTokens (fun w hw => ih w (List.mem_cons_of_mem _ hw)) []
        (.name k) v.outline stack rest
      simp only [tokens, fieldTokens, List.cons_append, List.append_assoc]
      change ofTokens (.field [] (.name k) :: stack) .value (v.tokens ++ _) = _
      rw [ih (k, v) List.mem_cons_self]
      exact hfields

/-- The compact text of a plain value has the outline of the value, and nothing behind it. -/
theorem read_render (h : v.Plain) : Document.read v.render = ⟨v.outline, false⟩ := by
  rw [Document.read, render, String.toList_ofList, h.ofChars_chars]
  have hread := h.outline_reads [] []
  rwa [List.append_nil] at hread

/-- The value of the outline is the value itself, unless it is nested too deeply. -/
theorem valueWithin_outline (h : v.Plain) {d : Nat} (hd : v.depth ≤ d) :
    v.outline.valueWithin d = some v := by
  induction h generalizing d with
  | null | bool b | integer hlow hhigh | string s => rfl
  | @array items _ ih =>
    rw [depth] at hd
    have hitems := itemsWithin_itemOutlines (d := d - 1) fun v hv =>
      ih v hv (Nat.le_trans (depth_le_of_mem_items hv) (by omega))
    rw [outline, valueWithin, if_pos ⟨rfl, by omega⟩, hitems, Option.map_some]
  | @object fields _ ih =>
    rw [depth] at hd
    have hfields := fieldsWithin_fieldOutlines (d := d - 1) fun f hf =>
      ih f hf (Nat.le_trans (depth_le_of_mem_fields hf) (by omega))
    rw [outline, valueWithin, if_pos ⟨rfl, by omega⟩, hfields, Option.map_some]

/-- A plain value that is not nested too deeply is read back from its compact text. -/
theorem read?_render (h : v.Plain) (hd : v.depth ≤ depthLimit) : read? v.render = some v := by
  rw [read?, h.read_render]
  exact h.valueWithin_outline hd

/-- Different plain values have different texts. -/
theorem render_inj {w : Value} (hv : v.Plain) (hw : w.Plain) : v.render = w.render ↔ v = w := by
  refine ⟨fun h => ?_, congrArg render⟩
  have houtline : v.outline = w.outline := by
    have hread := hv.read_render
    rw [h, hw.read_render] at hread
    exact (congrArg Document.outline hread).symm
  -- Nothing limits the depth here, so one is taken that is enough for both.
  have hvalue := hv.valueWithin_outline (Nat.le_max_left v.depth w.depth)
  rw [houtline, hw.valueWithin_outline (Nat.le_max_right v.depth w.depth)] at hvalue
  exact (Option.some.inj hvalue).symm

end Value.Plain

end NodeLending.Json
