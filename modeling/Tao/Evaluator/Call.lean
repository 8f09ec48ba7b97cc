/-
  What calls do.

  Calling a function runs its body in a new scope inside of the one it was made in; only such calls
  count against the limit on depth.  Built-in functions act on the machine directly, and some of
  them call back.
-/
import Tao.Evaluator.Statement
import Tao.Text.LetterCase

namespace Tao.Evaluator

/-! ## Functions that scripts define -/

/-- Binds parameters to arguments.  Missing arguments are nil, extra ones are dropped. -/
def bindParams (scope : Scope) : List String → List Value → Except RuntimeError Scope
  | [], _ => .ok scope
  | param :: params, [] => do bindParams (← scope.define param .nil) params []
  | param :: params, argument :: arguments => do
    bindParams (← scope.define param argument) params arguments

/-- Fails if as many calls are under way as are allowed. -/
def checkDepth : Eval Unit := fun m =>
  if m.config.maxCallDepth ≤ m.depth then .error (.failed (.callsTooDeep m.config.maxCallDepth)) m
  else .ok () m

/-- Calls a function: runs its body and gives what it returned, or nil. -/
def callClosure (k : Evaluator) (closure : Closure) (arguments : List Value) : Eval Value := do
  checkDepth
  let scope ← Eval.read fun _ =>
    bindParams (.inside (some closure.scope)) closure.code.params arguments
  let id ← Eval.make (·.addScope scope)
  Eval.deeper (k.runBlock id closure.code.body)
  let (_, returned) ← Eval.store (Store.lowerSignals id)
  return returned.getD .nil

/-! ## Printing and measuring -/

/-- Writes the texts of values, a space between any two. -/
def printValues (values : List Value) : Eval Unit := do
  let texts ← Eval.read fun heap => values.mapM heap.display
  Eval.write (" ".intercalate texts)

/-- The number of characters, elements or properties of a value. -/
def lengthOf (heap : Heap) : List Value → Except RuntimeError Nat
  | .string text :: _ => .ok text.length
  | .array id :: _ => do return (← heap.array id).elements.size
  | .object id :: _ => do return (← heap.object id).props.length
  | other :: _ => .error (.lenOf other.type)
  | [] => .error .lenOfNothing

/-! ## Methods that call back -/

/-- The function that a method was given to call. -/
def functionArgument (method : ArrayMethod) : List Value → Except RuntimeError Value
  | .function closure :: _ => .ok (.function closure)
  | .builtin builtin :: _ => .ok (.builtin builtin)
  | other :: _ => .error (.notCallable other.type)
  | [] => .error (.missingFunction method)

/-- The element of an array at a place, if the array is that long now. -/
def elementNow (array : ArrayId) (place : Nat) (heap : Heap) :
    Except RuntimeError (Option Value) := do
  return (← heap.array array).elements[place]?

/-- Calls `f` with each element that is there when its turn comes, its index and the array, and lets
    `visit` decide from what was found so far, the element and the result how to go on.  Element and
    result are kept alive from then on. -/
def overElements {β : Type} (k : Evaluator) (array : ArrayId) (f : Value)
    (visit : β → Value → Value → Eval (Turn β β)) (start : β) : Eval β :=
  iterate k.bound (fun (place, found) => do
    match ← Eval.read (elementNow array place) with
    | none => return .done found
    | some element =>
      let result ← k.call f [element, .number (Int64.ofNat place), .array array]
      Eval.keep element
      Eval.keep result
      match ← visit found element result with
      | .again found => return .again (place + 1, found)
      | .done found => return .done found) ((0 : Nat), start)

/-- Calls `f` with the value folded so far, each element, its index and the array. -/
def foldElements (k : Evaluator) (array : ArrayId) (f : Value) (start : Value) : Eval Value :=
  iterate k.bound (fun (place, memo) => do
    match ← Eval.read (elementNow array place) with
    | none => return .done memo
    | some element =>
      let memo ← k.call f [memo, element, .number (Int64.ofNat place), .array array]
      Eval.keep memo
      return .again (place + 1, memo)) ((0 : Nat), start)

/-- Makes an array of values found in reverse. -/
def arrayOfReversed (found : List Value) : Eval Value :=
  return .array (← Eval.make (·.addArray (.ofElements found.reverse.toArray)))

/-- The elements for which `f` gives something true, in a new array. -/
def selectElements (k : Evaluator) (array : ArrayId) (arguments : List Value) : Eval Value := do
  let f ← Eval.read fun _ => functionArgument .filter arguments
  let found ← k.overElements array f (fun found element result => do
    if ← Eval.truthy result then
      return .again (element :: found)
    else
      return .again found) []
  arrayOfReversed found

/-- Calls a method of an array. -/
def callArrayMethod (k : Evaluator) (method : ArrayMethod) (array : ArrayId)
    (arguments : List Value) : Eval Value := do
  match method with
  | .push => return .number (Int64.ofNat (← Eval.store (Store.pushElements array arguments)))
  | .pop => return (← Eval.store (Store.popElement array)).getD .nil
  | .join =>
    let separator ←
      match arguments with
      | [] => pure ","
      | .string separator :: _ => pure separator
      | other :: _ => fail (.separatorType other.type)
    let texts ← Eval.read fun heap => do
      (← heap.array array).elements.toList.mapM heap.display
    return .string (separator.intercalate texts)
  | .each =>
    let f ← Eval.read fun _ => functionArgument .each arguments
    k.overElements array f (fun _ _ _ => return .again ()) ()
    return .nil
  | .map =>
    let f ← Eval.read fun _ => functionArgument .map arguments
    arrayOfReversed (← k.overElements array f
      (fun found _ result => return .again (result :: found)) [])
  | .filter | .filterWhere => k.selectElements array arguments
  | .find =>
    let f ← Eval.read fun _ => functionArgument .find arguments
    k.overElements array f (fun found element result => do
      if ← Eval.truthy result then
        return .done element
      else
        return .again found) .nil
  | .reduce =>
    let f ← Eval.read fun _ => functionArgument .reduce arguments
    k.foldElements array f ((arguments[1]?).getD .nil)

/-- What a method of a string gives. -/
def callStringMethod (method : StringMethod) (text : String) : Value :=
  match method with
  | .len => .number (Int64.ofNat text.length)
  | .lower => .string (Text.lower text)
  | .upper => .string (Text.upper text)

/-! ## All calls -/

/-- Calls a built-in function. -/
def callBuiltin (k : Evaluator) (builtin : Builtin) (arguments : List Value) : Eval Value := do
  match builtin with
  | .print =>
    printValues arguments
    return .nil
  | .println =>
    printValues arguments
    Eval.write "\n"
    return .nil
  | .len => return .number (Int64.ofNat (← Eval.read (lengthOf · arguments)))
  | .arrayMethod _ method array => k.callArrayMethod method array arguments
  | .stringMethod _ method text => return callStringMethod method text

/-- Calls a value, which must be a function. -/
def callAny (k : Evaluator) (callee : Value) (arguments : List Value) : Eval Value :=
  match callee with
  | .function closure => k.callClosure closure arguments
  | .builtin builtin => k.callBuiltin builtin arguments
  | other => fail (.notCallable other.type)

end Tao.Evaluator
