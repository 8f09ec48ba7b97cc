/-
  How tightly operators bind.

  The tiers run from assignment, which binds loosest, to indexing, which binds tightest.  A token
  that may stand after an operand belongs to one tier; `Precedence.afterOperand?` is that table.
-/
import Tao.Kind

namespace Tao

/-- The tiers of operators, loosest first. -/
inductive Precedence where
  /-- `=`, `+=` and the other assignments -/
  | assignment
  /-- `?:` -/
  | conditional
  /-- `||` -/
  | logicalOr
  /-- `&&` -/
  | logicalAnd
  /-- `&`, `|`, `^`, `&^` -/
  | bitwise
  /-- `==`, `!=` -/
  | equality
  /-- `<`, `<=`, `>`, `>=` -/
  | comparison
  /-- `<<`, `>>` -/
  | shift
  /-- `+`, `-` -/
  | additive
  /-- `*`, `/`, `%` -/
  | multiplicative
  /-- `**` -/
  | exponentiation
  /-- `!`, `+`, `-`, `^` before an operand -/
  | unary
  /-- `++`, `--` before a target -/
  | stepBefore
  /-- `++`, `--` after a target -/
  | stepAfter
  /-- `.`, `[]`, `()`, `new` -/
  | indexing
  deriving DecidableEq, Repr, Inhabited

namespace Precedence

/-- The place of a tier in the order. -/
def rank : Precedence → Nat
  | assignment => 1
  | conditional => 2
  | logicalOr => 3
  | logicalAnd => 4
  | bitwise => 5
  | equality => 6
  | comparison => 7
  | shift => 8
  | additive => 9
  | multiplicative => 10
  | exponentiation => 11
  | unary => 12
  | stepBefore => 13
  | stepAfter => 14
  | indexing => 15

/-- The next tighter tier; the tightest one is its own. -/
def next : Precedence → Precedence
  | assignment => conditional
  | conditional => logicalOr
  | logicalOr => logicalAnd
  | logicalAnd => bitwise
  | bitwise => equality
  | equality => comparison
  | comparison => shift
  | shift => additive
  | additive => multiplicative
  | multiplicative => exponentiation
  | exponentiation => unary
  | unary => stepBefore
  | stepBefore => stepAfter
  | stepAfter => indexing
  | indexing => indexing

/-- The tier of a token that stands after an operand; `none` if it cannot go on with one. -/
def afterOperand? : Kind → Option Precedence
  | .assign | .plusAssign | .minusAssign | .starStarAssign | .starAssign | .slashAssign
  | .percentAssign | .leftShiftAssign | .rightShiftAssign | .andAssign | .xorAssign | .orAssign
  | .andNotAssign => some assignment
  | .question => some conditional
  | .orOr => some logicalOr
  | .andAnd => some logicalAnd
  | .bitAnd | .bitOr | .bitXor | .bitAndNot => some bitwise
  | .equalEqual | .bangEqual => some equality
  | .greater | .greaterEqual | .less | .lessEqual => some comparison
  | .leftShift | .rightShift => some shift
  | .plus | .minus => some additive
  | .star | .slash | .percent => some multiplicative
  | .starStar => some exponentiation
  | .increment | .decrement => some stepAfter
  | .leftParen | .leftBracket | .dot => some indexing
  | _ => none

/-- The tier from which the right operand of a binary operator is read.  Operators group to the
    left, so it is one tighter than the operator's own; only `**` groups to the right. -/
def ofRightOperand (operator : Kind) (tier : Precedence) : Precedence :=
  if operator = .starStar then tier else tier.next

/-- Every tier but the tightest has the next rank right above it. -/
theorem rank_next (tier : Precedence) (h : tier ≠ indexing) : tier.next.rank = tier.rank + 1 := by
  cases tier <;> first | rfl | exact absurd rfl h

end Precedence

end Tao
