import Mathlib.Algebra.Group.Int.Defs
import Mathlib.Algebra.Group.Nat.Defs
import Mathlib.Tactic.SplitIfs
import NodeLending.Json.Outline

/-!
# The tokens of a compact text

The compact text of a value is read back one token at a time. Every part of the text is read as the
tokens it stands for, whatever follows; only a number ends where the next sign stands, and what
follows a value is always a comma or a closing bracket.

Floating point numbers are left out: their texts are not read digit by digit.

## Main definitions

* `Json.Value.Plain`: the values without floating point numbers.
* `Json.Value.tokens`: the tokens that a value stands for.

## Main results

* `Json.Token.ofMode_quote`, `Json.Token.ofMode_render`: strings and integers are read back.
* `Json.Value.Plain.ofChars_chars`: the compact text of a plain value has its tokens.
-/

namespace NodeLending.Json

namespace Value

/-- The values without floating point numbers. -/
inductive Plain : Value → Prop
  | null : Plain .null
  | bool (b : Bool) : Plain (.bool b)
  | integer {i : Int} (hlow : -2 ^ 63 ≤ i) (hhigh : i < 2 ^ 64) : Plain (.number (.integer i))
  | string (s : String) : Plain (.string s)
  | array {items : List Value} (h : ∀ v ∈ items, Plain v) : Plain (.array items)
  | object {fields : List (String × Value)} (h : ∀ f ∈ fields, Plain f.2) : Plain (.object fields)

mutual

/-- The tokens that a value stands for. -/
def tokens : Value → List Token
  | .null => [.null]
  | .bool b => [.bool b]
  | .number n => [.number (some n)]
  | .string s => [.text (some s)]
  | .array items => .openArray :: (itemTokens items ++ [.closeArray])
  | .object fields => .openObject :: (fieldTokens fields ++ [.closeObject])

/-- The tokens of the items of an array. -/
def itemTokens : List Value → List Token
  | [] => []
  | v :: rest => tokens v ++ moreItemTokens rest

/-- The tokens of the later items of an array. -/
def moreItemTokens : List Value → List Token
  | [] => []
  | v :: rest => .comma :: (tokens v ++ moreItemTokens rest)

/-- The tokens of the fields of an object. -/
def fieldTokens : List (String × Value) → List Token
  | [] => []
  | (k, v) :: rest => .text (some k) :: .colon :: (tokens v ++ moreFieldTokens rest)

/-- The tokens of the later fields of an object. -/
def moreFieldTokens : List (String × Value) → List Token
  | [] => []
  | (k, v) :: rest => .comma :: .text (some k) :: .colon :: (tokens v ++ moreFieldTokens rest)

end

end Value

namespace Token

variable {rest : List Char}

/-- What may follow a value in a compact text. -/
inductive Follows : List Char → Prop
  | nil : Follows []
  | comma (rest : List Char) : Follows (',' :: rest)
  | closeArray (rest : List Char) : Follows (']' :: rest)
  | closeObject (rest : List Char) : Follows ('\x7d' :: rest)

/-! ### Strings -/

theorem hexValue?_hexDigit (n : Nat) : Text.hexValue? (Value.hexDigit n) = some (n % 16) :=
  Text.hexValue?_digitChar (Nat.mod_lt n (by decide))

/-- An escaped character is read as the character. -/
theorem ofMode_escape (read : List Char) (c : Char) (rest : List Char) :
    ofMode (.text ⟨read, true, none⟩) (Value.escape c ++ rest) =
      ofMode (.text ⟨c :: read, true, none⟩) rest := by
  have hchar : ∀ {k : Nat}, c.toNat = k → c = Char.ofNat k := fun h => h ▸ (Char.ofNat_toNat c).symm
  rw [Value.escape]
  split_ifs with hquote hbackslash h8 h9 h10 h12 h13 h32
  · rw [hquote]
    rfl
  · rw [hbackslash]
    rfl
  · rw [hchar h8]
    rfl
  · rw [hchar h9]
    rfl
  · rw [hchar h10]
    rfl
  · rw [hchar h12]
    rfl
  · rw [hchar h13]
    rfl
  · -- A numeric escape: two zeros, and the two digits of the character.
    have hvalue : c.toNat / 16 % 16 * 16 + c.toNat % 16 = c.toNat := by omega
    change ofMode (.unicode ⟨read, true, none⟩ 2 0)
      (Value.hexDigit (c.toNat / 16) :: Value.hexDigit c.toNat :: rest) = _
    have hunit : OpenText.pushUnit ⟨read, true, none⟩ c.toNat = ⟨c :: read, true, none⟩ := by
      rw [OpenText.pushUnit, if_neg (by omega), if_neg (by omega), Char.ofNat_toNat]
      rfl
    simp [ofMode, step, hexValue?_hexDigit, hvalue, hunit]
  · simp [ofMode, step, hquote, hbackslash, h32, OpenText.push]

/-- The characters of a string up to its end. -/
theorem ofMode_escapes (read cs : List Char) (rest : List Char) :
    ofMode (.text ⟨read, true, none⟩) (cs.flatMap Value.escape ++ '"' :: rest) =
      .text (some (String.ofList (read.reverse ++ cs))) :: ofMode .between rest := by
  induction cs generalizing read with
  | nil =>
    rw [List.append_nil]
    rfl
  | cons c cs ih =>
    rw [List.flatMap_cons, List.append_assoc, ofMode_escape, ih, List.reverse_cons,
      List.append_assoc, List.singleton_append]

/-- A quoted string is read as the string. -/
theorem ofMode_quote (s : String) (rest : List Char) :
    ofMode .between (Value.quote s ++ rest) = .text (some s) :: ofMode .between rest := by
  have hopen : ofMode .between (Value.quote s ++ rest) =
      ofMode (.text ⟨[], true, none⟩) (s.toList.flatMap Value.escape ++ '"' :: rest) := by
    rw [Value.quote, List.cons_append, List.append_assoc]
    rfl
  rw [hopen, ofMode_escapes, List.reverse_nil, List.nil_append, String.ofList_toList]

/-! ### Integers -/

/-- The value of digits is the number that they are written for. -/
theorem value_eq_ofDigitChars (acc : Nat) (ds : List Char) :
    Numeral.value acc ds = Nat.ofDigitChars 10 ds acc := by
  induction ds generalizing acc with
  | nil => rfl
  | cons c ds ih =>
    rw [Nat.ofDigitChars_cons, ← ih, Nat.mul_comm]
    rfl

theorem value_toDigits (n : Nat) : Numeral.value 0 (Nat.toDigits 10 n) = n := by
  rw [value_eq_ofDigitChars, Nat.ofDigitChars_ten_toDigits]

/-- The digits of a positive number start with one that is not zero. -/
theorem exists_toDigits_eq {n : Nat} (hn : 0 < n) : ∃ d ds, 0 < d ∧ d < 10 ∧
    Nat.toDigits 10 n = Nat.digitChar d :: ds ∧ ∀ c ∈ ds, c.isDigit = true := by
  induction n using Nat.strongRecOn with
  | ind n ih =>
    by_cases hlt : n < 10
    · exact ⟨n, [], hn, hlt, Nat.toDigits_of_lt_base hlt, fun c hc => nomatch hc⟩
    · obtain ⟨d, ds, hpos, hd, heq, hds⟩ := ih (n / 10) (by omega) (by omega)
      refine ⟨d, ds ++ [Nat.digitChar (n % 10)], hpos, hd, ?_, fun c hc => ?_⟩
      · rw [Nat.toDigits_of_base_le (by decide) (by omega), heq]
        rfl
      · rcases List.mem_append.mp hc with hc | hc
        · exact hds c hc
        · rw [List.mem_singleton.mp hc, Nat.isDigit_digitChar]
          exact decide_eq_true (Nat.mod_lt n (by decide))

/-- A number ends where the next sign stands. -/
theorem ofMode_number_end (hrest : Follows rest) (n : Numeral) {part : NumberPart}
    (hpart : part = .zero ∨ part = .whole) :
    ofMode (.number part n) rest = closeNumber n :: ofMode .between rest := by
  rcases hpart with rfl | rfl <;> cases hrest <;> rfl

/-- The digits of a number up to its end. -/
theorem ofMode_digits (hrest : Follows rest) {ds : List Char} (hds : ∀ c ∈ ds, c.isDigit = true)
    (negative : Bool) (read : List Char) :
    ofMode (.number .whole ⟨negative, read, [], none, true⟩) (ds ++ rest) =
      .number (Numeral.number? ⟨negative, read.reverse ++ ds, [], none, true⟩) ::
        ofMode .between rest := by
  induction ds generalizing read with
  | nil =>
    rw [List.nil_append, ofMode_number_end hrest _ (.inr rfl), List.append_nil]
    rfl
  | cons c ds ih =>
    have hc : c.isDigit = true := hds c List.mem_cons_self
    have hstep : step (.number .whole ⟨negative, read, [], none, true⟩) c =
        ([], .number .whole ⟨negative, c :: read, [], none, true⟩) := by
      simp [step, continueNumber, hc]
    rw [List.cons_append, ofMode, hstep, List.nil_append,
      ih (fun c hc => hds c (List.mem_cons_of_mem _ hc)), List.reverse_cons, List.append_assoc,
      List.singleton_append]

/-- The digits of a positive number without a sign in front. -/
theorem ofMode_toDigits (hrest : Follows rest) {n : Nat} (hn : 0 < n) :
    ofMode .between (Nat.toDigits 10 n ++ rest) =
      .number (Numeral.number? ⟨false, Nat.toDigits 10 n, [], none, true⟩) ::
        ofMode .between rest := by
  obtain ⟨d, ds, hpos, hd, heq, hds⟩ := exists_toDigits_eq hn
  have hstart : step .between (Nat.digitChar d) =
      ([], .number .whole ⟨false, [Nat.digitChar d], [], none, true⟩) := by
    have hcases : d = 1 ∨ d = 2 ∨ d = 3 ∨ d = 4 ∨ d = 5 ∨ d = 6 ∨ d = 7 ∨ d = 8 ∨ d = 9 := by omega
    rcases hcases with rfl | rfl | rfl | rfl | rfl | rfl | rfl | rfl | rfl <;> rfl
  rw [heq, List.cons_append, ofMode, hstart, List.nil_append, ofMode_digits hrest hds]
  rfl

/-- The digits of a positive number behind a minus sign. -/
theorem ofMode_minus_toDigits (hrest : Follows rest) {n : Nat} (hn : 0 < n) :
    ofMode .between ('-' :: (Nat.toDigits 10 n ++ rest)) =
      .number (Numeral.number? ⟨true, Nat.toDigits 10 n, [], none, true⟩) ::
        ofMode .between rest := by
  obtain ⟨d, ds, hpos, hd, heq, hds⟩ := exists_toDigits_eq hn
  have hstart : step (.number .minus ⟨true, [], [], none, true⟩) (Nat.digitChar d) =
      ([], .number .whole ⟨true, [Nat.digitChar d], [], none, true⟩) := by
    have hcases : d = 1 ∨ d = 2 ∨ d = 3 ∨ d = 4 ∨ d = 5 ∨ d = 6 ∨ d = 7 ∨ d = 8 ∨ d = 9 := by omega
    rcases hcases with rfl | rfl | rfl | rfl | rfl | rfl | rfl | rfl | rfl <;> rfl
  change ofMode (.number .minus ⟨true, [], [], none, true⟩) (Nat.toDigits 10 n ++ rest) = _
  rw [heq, List.cons_append, ofMode, hstart, List.nil_append, ofMode_digits hrest hds]
  rfl

/-- The text of an integer is read as the integer. -/
theorem ofMode_render (hrest : Follows rest) {i : Int} (hlow : -2 ^ 63 ≤ i) (hhigh : i < 2 ^ 64) :
    ofMode .between ((Number.integer i).render ++ rest) =
      .number (some (.integer i)) :: ofMode .between rest := by
  have hbound : Numeral.bound = 2 ^ 64 - 1 := rfl
  have hsize : UInt64.size = 2 ^ 64 := rfl
  rw [Number.render]
  rcases Int.lt_trichotomy i 0 with hneg | rfl | hpos
  · have hvalue : -((i.natAbs : Nat) : Int) = i := by omega
    rw [if_pos hneg, List.cons_append, ofMode_minus_toDigits hrest (by omega), Numeral.number?]
    simp only [value_toDigits]
    rw [if_neg (by simp), if_pos ⟨trivial, trivial, by omega, by omega⟩, hvalue]
  · rw [if_neg (by decide)]
    change ofMode (.number .zero ⟨false, ['0'], [], none, true⟩) rest = _
    rw [ofMode_number_end hrest _ (.inl rfl)]
    rfl
  · have hvalue : ((i.natAbs : Nat) : Int) = i := by omega
    rw [if_neg (by omega), ofMode_toDigits hrest (by omega), Numeral.number?]
    simp only [value_toDigits]
    rw [if_pos ⟨trivial, by simp, by omega⟩, hvalue]

/-! ### Values -/

/-- What is read of a value has its tokens, whatever may follow. -/
def Reads (v : Value) : Prop :=
  ∀ rest, Follows rest → ofMode .between (v.chars ++ rest) = v.tokens ++ ofMode .between rest

theorem follows_moreItemChars (items : List Value) (rest : List Char) :
    Follows (Value.moreItemChars items ++ ']' :: rest) := by
  cases items with
  | nil => exact .closeArray rest
  | cons v items => exact .comma _

theorem follows_moreFieldChars (fields : List (String × Value)) (rest : List Char) :
    Follows (Value.moreFieldChars fields ++ '\x7d' :: rest) := by
  cases fields with
  | nil => exact .closeObject rest
  | cons f fields => exact .comma _

theorem ofMode_moreItemChars {items : List Value} (h : ∀ v ∈ items, Reads v) (rest : List Char) :
    ofMode .between (Value.moreItemChars items ++ ']' :: rest) =
      Value.moreItemTokens items ++ .closeArray :: ofMode .between rest := by
  induction items with
  | nil => rfl
  | cons v items ih =>
    have hv := h v List.mem_cons_self _ (follows_moreItemChars items rest)
    have hitems := ih fun w hw => h w (List.mem_cons_of_mem v hw)
    rw [Value.moreItemChars, Value.moreItemTokens, List.cons_append, List.append_assoc,
      List.cons_append, List.append_assoc, ← hitems, ← hv]
    rfl

theorem ofMode_moreFieldChars {fields : List (String × Value)} (h : ∀ f ∈ fields, Reads f.2)
    (rest : List Char) :
    ofMode .between (Value.moreFieldChars fields ++ '\x7d' :: rest) =
      Value.moreFieldTokens fields ++ .closeObject :: ofMode .between rest := by
  induction fields with
  | nil => rfl
  | cons f fields ih =>
    obtain ⟨k, v⟩ := f
    have hv := h (k, v) List.mem_cons_self _ (follows_moreFieldChars fields rest)
    have hfields := ih fun w hw => h w (List.mem_cons_of_mem _ hw)
    have hkey : ∀ cs, ofMode .between (',' :: (Value.quote k ++ ':' :: cs)) =
        .comma :: .text (some k) :: .colon :: ofMode .between cs := by
      intro cs
      change .comma :: ofMode .between (Value.quote k ++ ':' :: cs) = _
      rw [ofMode_quote]
      rfl
    simp only [Value.moreFieldChars, Value.moreFieldTokens, List.cons_append, List.append_assoc]
    rw [hkey, hv, hfields]

end Token

namespace Value.Plain

open Token

/-- The compact text of a plain value is read as its tokens. -/
theorem reads {v : Value} (h : v.Plain) : Reads v := by
  induction h with
  | null => exact fun rest _ => rfl
  | bool b => cases b <;> exact fun rest _ => rfl
  | integer hlow hhigh => exact fun rest hrest => ofMode_render hrest hlow hhigh
  | string s => exact fun rest _ => ofMode_quote s rest
  | @array items _ ih =>
    intro rest _
    cases items with
    | nil => rfl
    | cons v items =>
      have hv := ih v List.mem_cons_self _ (follows_moreItemChars items rest)
      have hitems := ofMode_moreItemChars (fun w hw => ih w (List.mem_cons_of_mem v hw)) rest
      simp only [Value.chars, Value.itemChars, Value.tokens, Value.itemTokens, List.cons_append,
        List.append_assoc, List.nil_append]
      rw [← hitems, ← hv]
      rfl
  | @object fields _ ih =>
    intro rest _
    cases fields with
    | nil => rfl
    | cons f fields =>
      obtain ⟨k, v⟩ := f
      have hv := ih (k, v) List.mem_cons_self _ (follows_moreFieldChars fields rest)
      have hfields := ofMode_moreFieldChars (fun w hw => ih w (List.mem_cons_of_mem _ hw)) rest
      simp only [Value.chars, Value.fieldChars, Value.tokens, Value.fieldTokens, List.cons_append,
        List.append_assoc, List.nil_append]
      change .openObject :: ofMode .between (Value.quote k ++ ':' :: _) = _
      rw [ofMode_quote]
      change .openObject :: .text (some k) :: .colon :: ofMode .between _ = _
      rw [hv, hfields]

/-- The compact text of a plain value has its tokens. -/
theorem ofChars_chars {v : Value} (h : v.Plain) : ofChars v.chars = v.tokens := by
  have hread := h.reads [] .nil
  rwa [List.append_nil, ofMode, finish, List.append_nil] at hread

end Value.Plain

end NodeLending.Json
