import NodeLending.Proofs.Label.Grammar

/-!
# The atoms of label expressions

Which labels an expression can ask for is a matter of the characters that an atom may be made of.
All atoms of an expression that is read are made of them, wherever they stand in it, and a text that
is made of them is read as the atom that it is. Any other label cannot be asked for at all: as a
text of its own it means something else or nothing, and there is no way to quote it.

## Main definitions

* `Label.Expr.atoms`: the atoms of an expression.

## Main results

* `Label.Expr.parse_of_isAtom`, `Label.Expr.exists_parse_iff`: which labels can be asked for.
-/

namespace NodeLending.Label.Expr

/-- The atoms of an expression. -/
def atoms : Expr → List String
  | unspecified => []
  | atom a => [a]
  | not e => e.atoms
  | and l r => l.atoms ++ r.atoms
  | or l r => l.atoms ++ r.atoms

theorem Built.of_mem_atoms {P : String → Prop} {e : Expr} (h : e.Built P) {a : String}
    (ha : a ∈ e.atoms) : P a := by
  induction h with
  | atom h => exact List.mem_singleton.mp ha ▸ h
  | not _ ih => exact ih ha
  | and _ _ ihl ihr | or _ _ ihl ihr => exact (List.mem_append.mp ha).elim ihl ihr

/-- A text that can be written as an atom is read as that atom. -/
theorem parse_of_isAtom {s : String} (h : IsAtom s) : parse s = .ok (.atom s) := by
  have hatom : Derives .operand [.atom s] (.atom s) := .atom s
  exact parse_eq_ok_iff.mpr ⟨⟨_, h.lexes, .inr hatom.single_conjunction.single_disjunction⟩,
    (shallow_iff h.lexes).mpr (nests_atom maxDepth s)⟩

/-- A label can be asked for, in whatever expression, exactly when it can be written as an atom. -/
theorem exists_parse_iff {a : String} : (∃ s e, parse s = .ok e ∧ a ∈ e.atoms) ↔ IsAtom a := by
  constructor
  · rintro ⟨s, e, he, ha⟩
    rcases built_of_sentence (parse_eq_ok_iff.mp he).1 with rfl | hbuilt
    · cases ha
    · exact hbuilt.of_mem_atoms ha
  · intro h
    exact ⟨a, .atom a, parse_of_isAtom h, List.mem_singleton_self a⟩

end NodeLending.Label.Expr
