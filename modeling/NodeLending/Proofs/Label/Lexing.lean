import NodeLending.Label.Token
import NodeLending.Proofs.Decode.Reading

/-!
# How a text falls into tokens

A text is made of the texts of its tokens with blanks anywhere between them. An atom goes on for as
long as its characters may stand in one, so two atoms never touch, while a sign may touch anything.
A text falls into tokens in one way at most, and the reader finds it.

## Main definitions

* `Label.IsAtom`: the texts that can be written as an atom.
* `Label.Lexes`: the characters of a text fall into tokens.

## Main results

* `Label.tokens_eq_ok_iff`: the tokens that are read are those that the text falls into.
* `Label.Lexes.isAtom_of_mem`: the atoms among the tokens of a text.
* `Label.Lexes.append`: texts that stand next to each other.
-/

namespace NodeLending.Label

/-- A text that can be written as an atom. -/
structure IsAtom (s : String) : Prop where
  /-- It is not empty. -/
  ne_empty : s ≠ ""
  /-- Its characters may stand in an atom. -/
  chars : ∀ c ∈ s.toList, isAtomChar c = true

/-- The next character, if there is one, may not stand in an atom. -/
def Ends (cs : List Char) : Prop := ∀ c ∈ cs.head?, isAtomChar c = false

/-- The characters of a text fall into tokens. -/
inductive Lexes : List Char → List Token → Prop
  /-- There is nothing left. -/
  | nil : Lexes [] []
  /-- A blank is skipped. -/
  | blank {c : Char} {cs : List Char} {ts : List Token} (hc : Text.isBlank c = true)
      (h : Lexes cs ts) : Lexes (c :: cs) ts
  /-- A token other than an atom is as it is written. -/
  | sign {t : Token} {cs : List Char} {ts : List Token} (ht : ∀ a, t ≠ .atom a)
      (h : Lexes cs ts) : Lexes (t.text.toList ++ cs) (t :: ts)
  /-- An atom is as long as it can be. -/
  | atom {a : String} {cs : List Char} {ts : List Token} (ha : IsAtom a) (hend : Ends cs)
      (h : Lexes cs ts) : Lexes (a.toList ++ cs) (.atom a :: ts)

variable {c : Char} {run cs ds : List Char} {ts us : List Token}

/-! ### Characters -/

theorem ends_nil : Ends [] := nofun

theorem ends_cons : Ends (c :: cs) ↔ isAtomChar c = false := by
  simp [Ends]

/-- A character that is neither blank nor a sign may stand in an atom. -/
theorem isAtomChar_of_sign? (hoperator : ¬(c = '&' ∨ c = '|')) (hblank : ¬Text.isBlank c = true)
    (hsign : sign? c = none) : isAtomChar c = true := by
  obtain ⟨hand, hor⟩ := not_or.mp hoperator
  have hopen : c ≠ '(' := fun h => by rw [h] at hsign; cases hsign
  have hclose : c ≠ ')' := fun h => by rw [h] at hsign; cases hsign
  have hnot : c ≠ '!' := fun h => by rw [h] at hsign; cases hsign
  simp [isAtomChar, hblank, hopen, hclose, hnot, hand, hor]

theorem sign?_ne_atom (c : Char) (a : String) : sign? c ≠ some (.atom a) := by
  unfold sign?
  split <;> simp

theorem isAtomChar_of_isBlank (h : Text.isBlank c = true) : isAtomChar c = false := by
  simp [isAtomChar, h]

/-- A sign that is written with one character is written with this one. -/
theorem toList_text_of_sign? {t : Token} (h : sign? c = some t) : t.text.toList = [c] := by
  unfold sign? at h
  split at h <;> cases h <;> rfl

theorem isAtomChar_of_sign?_eq_some {t : Token} (h : sign? c = some t) : isAtomChar c = false := by
  unfold sign? at h
  split at h <;> cases h <;> rfl

/-- A run of characters that may stand in an atom is an atom. -/
theorem isAtom_ofList (hne : run ≠ []) (hrun : ∀ c ∈ run, isAtomChar c = true) :
    IsAtom (String.ofList run.reverse) where
  ne_empty h := hne (by simpa using h)
  chars c hc := hrun c (by simpa using hc)

/-! ### What is read -/

/-- An atom that has been read is a token in front of what follows. -/
theorem Lexes.withAtom (hrun : ∀ c ∈ run, isAtomChar c = true) (hend : Ends cs) (h : Lexes cs ts) :
    Lexes (run.reverse ++ cs) (withAtom run ts) := by
  rw [Label.withAtom]
  split
  · next hempty =>
    rw [List.isEmpty_iff.mp hempty]
    exact h
  · next hempty =>
    have hne : run ≠ [] := by simpa using hempty
    have hatom := Lexes.atom (isAtom_ofList hne hrun) hend h
    rwa [String.toList_ofList] at hatom

/-- The tokens that are read are tokens of the text. -/
theorem lexes_of_tokensFrom (hrun : ∀ c ∈ run, isAtomChar c = true)
    (h : tokensFrom run cs = .ok ts) : Lexes (run.reverse ++ cs) ts := by
  have hnone : ∀ c ∈ [], isAtomChar c = true := List.forall_mem_nil _
  fun_induction tokensFrom run cs generalizing ts with
  | case1 run =>
    cases h
    exact Lexes.nil.withAtom hrun ends_nil
  | case2 run cs ih =>
    obtain ⟨ts, hts, rfl⟩ := map_eq_ok_iff.mp h
    exact .withAtom hrun (ends_cons.mpr rfl) (.sign (t := .and) (by simp) (ih hnone hts))
  | case3 run cs ih =>
    obtain ⟨ts, hts, rfl⟩ := map_eq_ok_iff.mp h
    exact .withAtom hrun (ends_cons.mpr rfl) (.sign (t := .or) (by simp) (ih hnone hts))
  | case4 run c cs => cases h
  | case5 run c cs _ _ _ hblank ih =>
    obtain ⟨ts, hts, rfl⟩ := map_eq_ok_iff.mp h
    have hend : Ends (c :: cs) := ends_cons.mpr (isAtomChar_of_isBlank hblank)
    exact .withAtom hrun hend (.blank hblank (ih hnone hts))
  | case6 run c cs _ _ _ _ t hsign ih =>
    obtain ⟨ts, hts, rfl⟩ := map_eq_ok_iff.mp h
    have hne : ∀ a, t ≠ .atom a := fun a heq => sign?_ne_atom c a (heq ▸ hsign)
    have hrest := Lexes.sign hne (ih hnone hts)
    rw [toList_text_of_sign? hsign] at hrest
    exact hrest.withAtom hrun (ends_cons.mpr (isAtomChar_of_sign?_eq_some hsign))
  | case7 run c cs _ _ hoperator hblank hsign ih =>
    have hc := isAtomChar_of_sign? hoperator hblank hsign
    simpa using ih (List.forall_mem_cons.mpr ⟨hc, hrun⟩) h

/-! ### What there is to be read -/

/-- The characters of an atom are read one after the other. -/
theorem tokensFrom_append (h : ∀ c ∈ cs, isAtomChar c = true)
    (run rest : List Char) : tokensFrom run (cs ++ rest) = tokensFrom (cs.reverse ++ run) rest := by
  induction cs generalizing run with
  | nil => rfl
  | cons c cs ih =>
    rw [List.cons_append, tokensFrom_cons_of_isAtomChar (h c List.mem_cons_self),
      ih fun d hd => h d (List.mem_cons_of_mem c hd), List.reverse_cons, List.append_assoc]
    rfl

/-- An atom that cannot go on is a token in front of what follows. -/
theorem tokensFrom_of_ends (hend : Ends cs) :
    tokensFrom run cs = (tokensFrom [] cs).map (withAtom run) := by
  have hmap : ∀ (x : Except Error (List Token)) (f : List Token → List Token),
      x.map (fun ts => withAtom run (f ts)) =
        (x.map fun ts => withAtom [] (f ts)).map (withAtom run) := by
    rintro (e | ts) f <;> rfl
  rw [tokensFrom.eq_def, tokensFrom.eq_def []]
  split
  · rfl
  · exact hmap _ _
  · exact hmap _ _
  · next c cs _ _ =>
    split
    · rfl
    · next hoperator =>
      split
      · exact hmap _ _
      · next hblank =>
        split
        · exact hmap _ _
        · next hsign =>
          -- Such a character would go on with the atom.
          have hc := isAtomChar_of_sign? hoperator hblank hsign
          rw [ends_cons.mp hend] at hc
          cases hc

theorem tokensFrom_blank (h : Text.isBlank c = true) (cs : List Char) :
    tokensFrom [] (c :: cs) = tokensFrom [] cs := by
  have hand : c ≠ '&' := by
    rintro rfl
    cases h
  have hor : c ≠ '|' := by
    rintro rfl
    cases h
  rw [tokensFrom]
  · rw [if_neg (not_or.mpr ⟨hand, hor⟩), if_pos h]
    cases tokensFrom [] cs <;> rfl
  · rintro _ rfl
    exact fun _ => hand rfl
  · rintro _ rfl
    exact fun _ => hor rfl

theorem tokensFrom_sign {t : Token} (ht : ∀ a, t ≠ .atom a) (cs : List Char) :
    tokensFrom [] (t.text.toList ++ cs) = (tokensFrom [] cs).map (t :: ·) := by
  cases t with
  | atom a => exact absurd rfl (ht a)
  | _ => rfl

/-- The tokens of a text are read. -/
theorem Lexes.tokensFrom_eq (h : Lexes cs ts) : tokensFrom [] cs = .ok ts := by
  induction h with
  | nil => rfl
  | blank hc _ ih => rw [tokensFrom_blank hc, ih]
  | sign ht _ ih =>
    rw [tokensFrom_sign ht, ih]
    rfl
  | @atom a cs ts ha hend _ ih =>
    have hne : a.toList.reverse ≠ [] := by simpa using ha.ne_empty
    rw [tokensFrom_append ha.chars, List.append_nil, tokensFrom_of_ends hend, ih]
    change Except.ok (Label.withAtom a.toList.reverse ts) = _
    rw [Label.withAtom, if_neg (by simpa using hne), List.reverse_reverse, String.ofList_toList]

/-- **The tokens of a text.** The tokens that are read from a text are those that it falls into, and
a text that falls into none is rejected. -/
theorem tokens_eq_ok_iff {s : String} : tokens s = .ok ts ↔ Lexes s.toList ts :=
  ⟨lexes_of_tokensFrom (List.forall_mem_nil _), Lexes.tokensFrom_eq⟩

/-- A text falls into tokens in one way at most. -/
theorem Lexes.eq (h : Lexes cs ts) (h' : Lexes cs us) : ts = us :=
  Except.ok.inj (h.tokensFrom_eq.symm.trans h'.tokensFrom_eq)

/-- The atoms among the tokens of a text can be written as atoms. -/
theorem Lexes.isAtom_of_mem {a : String} (h : Lexes cs ts) (ha : .atom a ∈ ts) : IsAtom a := by
  induction h with
  | nil => cases ha
  | blank _ _ ih => exact ih ha
  | sign ht _ ih => exact ih ((List.mem_cons.mp ha).resolve_left fun heq => ht a heq.symm)
  | atom hatom _ _ ih =>
    rcases List.mem_cons.mp ha with heq | ha
    · cases heq
      exact hatom
    · exact ih ha

/-- A text that can be written as an atom is one token. -/
theorem IsAtom.lexes {s : String} (h : IsAtom s) : Lexes s.toList [.atom s] := by
  have hlex := Lexes.atom h ends_nil .nil
  rwa [List.append_nil] at hlex

/-! ### Texts next to each other -/

/-- Two texts next to each other fall into the tokens of both, unless an atom could go on. -/
theorem Lexes.append (h : Lexes cs ts) (hend : Ends ds) (h' : Lexes ds us) :
    Lexes (cs ++ ds) (ts ++ us) := by
  induction h with
  | nil => exact h'
  | blank hc _ ih => exact .blank hc ih
  | sign ht _ ih =>
    rw [List.append_assoc]
    exact .sign ht ih
  | @atom a cs ts ha hcs _ ih =>
    rw [List.append_assoc]
    refine .atom ha ?_ ih
    cases cs with
    | nil => exact hend
    | cons c cs => exact ends_cons.mpr (ends_cons.mp hcs)

end NodeLending.Label
