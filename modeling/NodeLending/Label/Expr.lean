/-!
# Label expressions

A label expression says which nodes a reservation accepts. It is built from atoms with negation,
conjunction and disjunction, or it is unspecified, in which case it accepts no node at all.

## Main definitions

* `Label.Expr`: the expressions.
* `Label.Expr.eval`: whether a set of labels satisfies an expression.
* `Label.Expr.print`: the text of an expression, with no parentheses that are not needed to read
  its meaning back.
-/

namespace NodeLending.Label

/-- A label expression. -/
inductive Expr where
  /-- No expression was given; it is satisfied by nothing. -/
  | unspecified
  /-- The label itself. -/
  | atom (label : String)
  /-- The negation of an expression. -/
  | not (inner : Expr)
  /-- Both expressions. -/
  | and (left right : Expr)
  /-- At least one of two expressions. -/
  | or (left right : Expr)
  deriving DecidableEq, Repr, Inhabited

namespace Expr

/-- Whether an expression was given. -/
def isSpecified : Expr → Bool
  | unspecified => false
  | _ => true

/-- Whether the labels that `has` accepts satisfy the expression. -/
def eval (has : String → Bool) : Expr → Bool
  | unspecified => false
  | atom a => has a
  | not e => !e.eval has
  | and l r => l.eval has && r.eval has
  | or l r => l.eval has || r.eval has

/-- Whether a list of labels satisfies the expression. -/
def accepts (e : Expr) (labels : List String) : Bool := e.eval labels.contains

/-- Whether the expression is a disjunction, the only form that binds weaker than `&&`. -/
def isOr : Expr → Bool
  | or _ _ => true
  | _ => false

/-- Whether a negation sign may stand directly in front of the expression. -/
def isUnary : Expr → Bool
  | atom _ | not _ => true
  | _ => false

/-- The text with parentheses around it. -/
def parenthesised (s : String) : String := "(" ++ s ++ ")"

/-- The text of an expression. -/
def print : Expr → String
  | unspecified => ""
  | atom a => a
  | not e => "!" ++ if e.isUnary then e.print else parenthesised e.print
  | and l r =>
    (if l.isOr then parenthesised l.print else l.print) ++ " && " ++
      if r.isOr then parenthesised r.print else r.print
  | or l r => l.print ++ " || " ++ r.print

instance : ToString Expr := ⟨print⟩

end Expr

end NodeLending.Label
