/-
  What expressions do.

  Operands are evaluated from left to right; `&&`, `||` and `?:` evaluate only what they need.  An
  assignment evaluates its value before the parts of its target.
-/
import Tao.Evaluator.Place
import Tao.Operator

namespace Tao

/-- The largest size that `new Array` accepts. -/
def largestArray : Nat := 1 <<< 24

/-- The size that the arguments of `new Array` ask for. -/
def arraySize : List Value → Except RuntimeError Nat
  | [] => .ok 0
  | .number n :: _ =>
    if n < 0 then .error (.negativeArraySize n)
    else if n.toInt.toNat ≤ largestArray then .ok n.toInt.toNat
    else .error (.arrayTooLarge n largestArray)
  | other :: _ => .error (.arraySizeType other.type)

/-- Makes what `new` asks for. -/
def Maker.make (maker : Maker) (arguments : List Value) : Eval Value :=
  match maker with
  | .object => return .object (← Eval.make (·.addObject .empty))
  | .array => do
    let size ← Eval.read fun _ => arraySize arguments
    return .array (← Eval.make (·.addArray (.ofElements (.replicate size .nil))))

namespace Evaluator

/-- Makes a function of the active scope.  A named one is defined there under its name. -/
def makeFunction (code : FunctionCode) : Eval Value := do
  let scope ← Eval.activeScope
  let function := Value.function ⟨← Eval.freshStamp, code, scope⟩
  match code.name with
  | some name => Eval.store (Store.define scope name function)
  | none => pure ()
  return function

/-- Steps the number at a place up or down and gives the new number or the old one. -/
def step (operator : Kind) (before : Bool) (place : Place) : Eval Value := do
  match ← place.load with
  | .number old =>
    let new := if operator = .increment then old + 1 else old - 1
    place.store (.number new)
    return .number (if before then new else old)
  | other => fail (.badStepTarget operator other.type)

/-- The value of an expression. -/
def express (k : Evaluator) : Expression → Eval Value
  | .literal value => return value.toValue
  | .name text => (Place.name text).load
  | .unary operator operand => do
    let value ← k.evaluate operand
    if operator = .not then
      return .boolean (!(← Eval.truthy value))
    else
      Eval.read fun _ => applyUnary operator value
  | .step operator before target => do step operator before (← k.place target)
  | .binary operator left right => do
    let left ← k.evaluate left
    if operator = .andAnd then
      if ← Eval.truthy left then
        return .boolean (← Eval.truthy (← k.evaluate right))
      else
        return .boolean false
    else if operator = .orOr then
      if ← Eval.truthy left then
        return .boolean true
      else
        return .boolean (← Eval.truthy (← k.evaluate right))
    else
      let right ← k.evaluate right
      Eval.read fun _ => applyBinary operator left right
  | .conditional condition thenValue elseValue => do
    if ← Eval.truthy (← k.evaluate condition) then
      k.evaluate thenValue
    else
      k.evaluate elseValue
  | .construct maker arguments => do
    let maker ← k.evaluate maker
    let arguments ← arguments.mapM k.evaluate
    match maker with
    | .maker maker => maker.make arguments
    | other => fail (.notCallable other.type)
  | .assign target value => do
    let value ← k.evaluate value
    let place ← k.place target
    place.store value
    return value
  | .function code => makeFunction code
  | .index target key => do
    let target ← k.evaluate target
    let key ← k.evaluate key
    loadSlot target key
  | .call callee arguments => do
    let callee ← k.evaluate callee
    let arguments ← arguments.mapM k.evaluate
    k.call callee arguments
  | .object entries => do
    let props ← entries.foldlM (fun props (.mk key value) => do
      return Props.set key (← k.evaluate value) props) []
    return .object (← Eval.make (·.addObject ⟨props⟩))
  | .array elements => do
    let elements ← elements.mapM k.evaluate
    return .array (← Eval.make (·.addArray (.ofElements elements.toArray)))

end Evaluator

end Tao
