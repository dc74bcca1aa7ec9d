import NodeLending.Label.Expr
import NodeLending.Label.Token

/-!
# Reading label expressions

Tokens are read one at a time. What has been read so far is a stack of open parentheses with, on
each level, the disjunction to the left of the last `||`, the conjunction to the left of the last
`&&` and the number of negation signs that still wait for their operand. At any moment either an
operand has to follow or one has just been read, and that alone decides which tokens may come
next. Conjunction and disjunction group to the left; negation binds tighter than conjunction, and
conjunction tighter than disjunction.

A text without tokens is the unspecified expression. Parentheses are paired up before anything
else is looked at, so a missing one is reported in preference to a misplaced token. Those that are
open are counted with 32 bits, and the counter stays at its largest value.

## Main definitions

* `Label.Level`, `Label.Position`: what has been read so far.
* `Label.Position.step`, `Label.Position.finish`: one more token, and no more tokens.
* `Label.maxDepth`, `Label.balanced`: how far parentheses are counted, and whether they pair up.
* `Label.Expr.parse`: the expression of a text.
-/

namespace NodeLending.Label

/-- One level of parentheses, with an operand still to come. -/
structure Level where
  /-- What stands to the left of the last `||`. -/
  disjunction : Option Expr
  /-- What stands to the left of the last `&&`. -/
  conjunction : Option Expr
  /-- How many negation signs wait for their operand. -/
  negations : Nat
  deriving DecidableEq, Repr

namespace Level

/-- A level on which nothing has been read. -/
def start : Level := ⟨none, none, 0⟩

/-- The operand with the waiting negations applied. -/
def negated : Nat → Expr → Expr
  | 0, e => e
  | n + 1, e => .not (negated n e)

/-- The operand joined to the conjunction on its left. -/
def conjoin (l : Level) (e : Expr) : Expr :=
  match l.conjunction with
  | none => negated l.negations e
  | some c => .and c (negated l.negations e)

end Level

/-- A conjunction joined to the disjunction on its left. -/
def disjoin : Option Expr → Expr → Expr
  | none, e => e
  | some d, e => .or d e

/-- Where the reader of a token list stands. -/
inductive Position where
  /-- An operand has to follow. -/
  | before (outer : List Level) (here : Level)
  /-- An operand has been read; `conjunction` ends with it. -/
  | after (outer : List Level) (disjunction : Option Expr) (conjunction : Expr)
  deriving DecidableEq, Repr

namespace Position

/-- Nothing has been read. -/
def start : Position := before [] Level.start

/-- Read one token. -/
def step : Position → Token → Except Error Position
  | before outer here, .atom a => .ok (after outer here.disjunction (here.conjoin (.atom a)))
  | before outer here, .not => .ok (before outer { here with negations := here.negations + 1 })
  | before outer here, .opening => .ok (before (here :: outer) Level.start)
  | before _ _, t => .error (.unexpected t.text)
  | after outer d c, .and => .ok (before outer ⟨d, some c, 0⟩)
  | after outer d c, .or => .ok (before outer ⟨some (disjoin d c), none, 0⟩)
  | after (l :: outer) d c, .closing =>
    .ok (after outer l.disjunction (l.conjoin (disjoin d c)))
  | after _ _ _, t => .error (.unexpected t.text)

/-- Read all tokens. -/
def run (p : Position) (ts : List Token) : Except Error Position := ts.foldlM step p

/-- The expression when no token is left. -/
def finish : Position → Except Error Expr
  | after [] d c => .ok (disjoin d c)
  | _ => .error .unexpectedEnd

end Position

/-- As many open parentheses as a counter of 32 bits can hold. -/
def maxDepth : Nat := UInt32.size - 1

/-- Whether every parenthesis pairs up when `depth` of them are counted as open. The counter goes no
further than `maxDepth`. -/
def balancedFrom (depth : Nat) : List Token → Bool
  | [] => depth == 0
  | .opening :: ts => balancedFrom (min (depth + 1) maxDepth) ts
  | .closing :: ts =>
    match depth with
    | 0 => false
    | d + 1 => balancedFrom d ts
  | _ :: ts => balancedFrom depth ts

/-- Whether the parentheses of a token list pair up, as far as they are counted. -/
def balanced (ts : List Token) : Bool := balancedFrom 0 ts

/-- The expression of a token list. -/
def Expr.ofTokens (ts : List Token) : Except Error Expr :=
  if ts.isEmpty then .ok .unspecified
  else if balanced ts then do (← Position.start.run ts).finish
  else .error .unbalancedParentheses

/-- The expression of a text. -/
def Expr.parse (s : String) : Except Error Expr := do Expr.ofTokens (← tokens s)

end NodeLending.Label
