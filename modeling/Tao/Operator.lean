/-
  What the operators compute.

  Numbers are 64-bit integers and wrap around.  Division truncates toward zero and the remainder has
  the sign of the dividend.  A shift by 64 places or more shifts everything out; a right shift keeps
  the sign.  Any token kind may be asked for: one that is no operator on the operands at hand is
  reported as unsupported.
-/
import Tao.RuntimeError

namespace Tao

/-- `base` to the power `n`, wrapped around, by repeated squaring. -/
def power (base : Int64) (n : Nat) : Int64 :=
  if n = 0 then 1
  else
    let rest := power (base * base) (n / 2)
    if n % 2 = 1 then base * rest else rest
  termination_by n
  decreasing_by omega

/-- The largest exponent that `**` accepts. -/
def maxExponent : Nat := UInt32.size - 1

/-- `l` shifted to the left by `r` places. -/
def shiftLeft (l r : Int64) : Except RuntimeError Int64 :=
  if r < 0 then .error (.negativeShift r)
  else if r < 64 then .ok (l <<< r)
  else .ok 0

/-- `l` shifted to the right by `r` places, its sign kept. -/
def shiftRight (l r : Int64) : Except RuntimeError Int64 :=
  if r < 0 then .error (.negativeShift r)
  else if r < 64 then .ok (l >>> r)
  else .ok (if l < 0 then -1 else 0)

/-- `operator` between two numbers. -/
def applyToNumbers (operator : Kind) (l r : Int64) : Except RuntimeError Value :=
  match operator with
  | .plus => .ok (.number (l + r))
  | .minus => .ok (.number (l - r))
  | .star => .ok (.number (l * r))
  | .slash => if r = 0 then .error .divisionByZero else .ok (.number (l / r))
  | .percent => if r = 0 then .error .moduloByZero else .ok (.number (l % r))
  | .starStar =>
    if r.toInt < 0 || (maxExponent : Int) < r.toInt then .error (.exponentOutOfRange r)
    else .ok (.number (power l r.toInt.toNat))
  | .leftShift => return .number (← shiftLeft l r)
  | .rightShift => return .number (← shiftRight l r)
  | .bitAnd => .ok (.number (l &&& r))
  | .bitOr => .ok (.number (l ||| r))
  | .bitXor => .ok (.number (l ^^^ r))
  | .bitAndNot => .ok (.number (l &&& ~~~r))
  | .equalEqual => .ok (.boolean (l = r))
  | .bangEqual => .ok (.boolean (l ≠ r))
  | .less => .ok (.boolean (l < r))
  | .lessEqual => .ok (.boolean (l ≤ r))
  | .greater => .ok (.boolean (r < l))
  | .greaterEqual => .ok (.boolean (r ≤ l))
  | _ => .error (.unsupportedOperator operator .number .number)

/-- `operator` between two values.  Only nil, booleans, strings and numbers have operators, each
    with operands of its own type. -/
def applyBinary (operator : Kind) (left right : Value) : Except RuntimeError Value :=
  let unsupported := .error (.unsupportedOperator operator left.type right.type)
  match left, right with
  | .number l, .number r => applyToNumbers operator l r
  | .nil, .nil =>
    match operator with
    | .equalEqual => .ok (.boolean true)
    | .bangEqual => .ok (.boolean false)
    | _ => unsupported
  | .boolean l, .boolean r =>
    match operator with
    | .equalEqual => .ok (.boolean (l = r))
    | .bangEqual => .ok (.boolean (l ≠ r))
    | _ => unsupported
  | .string l, .string r =>
    match operator with
    | .plus => .ok (.string (l ++ r))
    | .equalEqual => .ok (.boolean (l = r))
    | .bangEqual => .ok (.boolean (l ≠ r))
    | _ => unsupported
  | _, _ => unsupported

/-- `operator` before a value, which must be a number.  Logical `!` is none of these: it accepts
    every value and needs the heap to judge it. -/
def applyUnary (operator : Kind) (operand : Value) : Except RuntimeError Value :=
  match operand with
  | .number n =>
    match operator with
    | .plus => .ok (.number n)
    | .minus => .ok (.number (-n))
    | .bitXor => .ok (.number (~~~n))
    | _ => .error (.unsupportedOperator operator .number .number)
  | other => .error (.badOperand operator other.type)

end Tao
