import NodeLending.Text.Blank

/-!
# Names of nodes and parties

Names come out of a repository and end up in paths, log lines and resource names, so a name is
checked before a typed value of it exists. A name is safe when it is not blank, has no blank at
either end, is neither of the two directory names `.` and `..`, and holds neither a control
character nor one of the characters listed in `Name.forbidden`.

The kind of a name is part of its type, which keeps node names and party names apart.

## Main definitions

* `Name`: a safe name of a kind, with `NodeName` and `PartyName`.
* `Name.check`: the check, and `Name.parse?` the typed value it admits.
* `NameError`: why a text is no name.
-/

namespace NodeLending

/-- Why a text is not a safe name. -/
inductive NameError where
  /-- The text is blank. -/
  | empty
  /-- There is a blank at one of its ends. -/
  | surroundingBlank (name : String)
  /-- It names a directory itself or its parent. -/
  | reserved (name : String)
  /-- It holds a character that no name may hold. -/
  | forbiddenCharacter (name : String) (c : Char)
  deriving DecidableEq, Repr

/-- The wording of a name error. -/
def NameError.message : NameError → String
  | .empty => "name cannot be empty"
  | .surroundingBlank name => s!"name '{name}' has leading or trailing whitespace"
  | .reserved name => s!"name '{name}' is reserved"
  | .forbiddenCharacter name c => s!"name '{name}' contains unsafe character '{c}'"

/-- The things that carry names. -/
inductive NameKind where
  /-- A node of the pool. -/
  | node
  /-- A party that borrows nodes. -/
  | party
  deriving DecidableEq, Repr

/-- The word for a kind of name. -/
def NameKind.text : NameKind → String
  | .node => "node"
  | .party => "party"

namespace Name

/-- The printable characters that no name may hold. -/
def forbidden : String := "?*/\\%!@#$^&|<>[]:;"

/-- Whether no name may hold the character. -/
def isForbidden (c : Char) : Bool := forbidden.toList.contains c || Text.isControl c

/-- Check a candidate. A blank text is reported as empty, blanks at the ends come next, then the
directory names, and last the first forbidden character. -/
def check (s : String) : Except NameError Unit :=
  let cs := s.toList
  if Text.trimChars cs = [] then .error .empty
  else if Text.trimChars cs ≠ cs then .error (.surroundingBlank s)
  else if s = "." ∨ s = ".." then .error (.reserved s)
  else
    match cs.find? isForbidden with
    | some c => .error (.forbiddenCharacter s c)
    | none => .ok ()

/-- The texts that pass. -/
theorem check_eq_ok_iff {s : String} : check s = .ok () ↔
    Text.trimChars s.toList ≠ [] ∧ Text.trimChars s.toList = s.toList ∧ (s ≠ "." ∧ s ≠ "..") ∧
      ∀ c ∈ s.toList, isForbidden c = false := by
  constructor
  · intro h
    rw [check] at h
    split at h
    · cases h
    next hempty =>
      split at h
      · cases h
      next hblank =>
        split at h
        · cases h
        next hreserved =>
          split at h
          · cases h
          next hnone =>
            refine ⟨hempty, Decidable.not_not.mp hblank, not_or.mp hreserved, fun c hc => ?_⟩
            exact Bool.eq_false_iff.mpr (List.find?_eq_none.mp hnone c hc)
  · rintro ⟨hempty, hblank, ⟨hpoint, hpoints⟩, hallowed⟩
    have hnone : s.toList.find? isForbidden = none :=
      List.find?_eq_none.mpr fun c hc => Bool.eq_false_iff.mp (hallowed c hc)
    simp only [check, if_neg hempty, if_neg (not_not_intro hblank),
      if_neg (not_or.mpr ⟨hpoint, hpoints⟩), hnone]

end Name

/-- A safe name of a kind. -/
structure Name (kind : NameKind) where
  /-- The name itself. -/
  text : String
  /-- The name has passed the check. -/
  safe : Name.check text = .ok ()
  deriving DecidableEq

/-- The name of a node. -/
abbrev NodeName := Name .node

/-- The name of a party. -/
abbrev PartyName := Name .party

namespace Name

variable {kind : NameKind}

/-- The typed name of a text that passes the check. -/
def parse? (kind : NameKind) (s : String) : Except NameError (Name kind) :=
  match h : check s with
  | .ok () => .ok ⟨s, h⟩
  | .error e => .error e

instance : ToString (Name kind) := ⟨Name.text⟩

instance : Repr (Name kind) := ⟨fun n _ => repr n.text⟩

/-- Names are ordered by their texts. -/
instance : Ord (Name kind) := ⟨fun a b => compare a.text b.text⟩

@[ext] theorem ext {a b : Name kind} (h : a.text = b.text) : a = b := by
  cases a
  cases b
  simp_all

theorem compare_def (a b : Name kind) : compare a b = compare a.text b.text := rfl

instance : Std.TransOrd (Name kind) where
  eq_swap {a b} := @Std.OrientedCmp.eq_swap String compare _ a.text b.text
  isLE_trans {a b c} := @Std.TransCmp.isLE_trans String compare _ a.text b.text c.text

instance : Std.LawfulEqOrd (Name kind) where
  compare_self {a} := @Std.ReflCmp.compare_self String compare _ a.text
  eq_of_compare h := ext (@Std.LawfulEqCmp.eq_of_compare String compare _ _ _ h)

/-- The text of a name reads back as the name. -/
theorem parse?_text (n : Name kind) : parse? kind n.text = .ok n := by
  rw [parse?]
  split
  · rfl
  · next h => rw [n.safe] at h; cases h

/-- A parsed name has the text it was parsed from. -/
theorem text_of_parse? {s : String} {n : Name kind} (h : parse? kind s = .ok n) : n.text = s := by
  rw [parse?] at h
  split at h
  · cases h; rfl
  · cases h

/-- Parsing fails exactly as the check does. -/
theorem parse?_eq_error_iff {s : String} {e : NameError} :
    parse? kind s = .error e ↔ check s = .error e := by
  rw [parse?]
  split
  · next h => simp [h]
  · next h => simp [h]

end Name

end NodeLending
