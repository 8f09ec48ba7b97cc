/-
  Evaluators from fuel.

  `Evaluator.ofFuel n` gives a meaning to whatever nests at most `n` levels deep and makes at most
  `n` turns in a loop; anything beyond that stops for lack of fuel.  Between two statements it
  collects garbage if there is enough of it.
-/
import Tao.Evaluator.Call

namespace Tao.Evaluator

mutual

/-- The value of an expression, within `n` levels. -/
def evaluateWithin : Nat → Expression → Eval Value
  | 0 => fun _ m => .error .outOfFuel m
  | n + 1 => fun expression m =>
    let below : Evaluator :=
      ⟨n, Eval.collectIfGrown, evaluateWithin n, executeWithin n, callWithin n⟩
    atLevel n (Eval.kept (express below expression)) m

/-- Executes a statement, within `n` levels.  What it kept alive is let go at its end. -/
def executeWithin : Nat → Statement → Eval Unit
  | 0 => fun _ m => .error .outOfFuel m
  | n + 1 => fun statement m =>
    let below : Evaluator :=
      ⟨n, Eval.collectIfGrown, evaluateWithin n, executeWithin n, callWithin n⟩
    atLevel n (Eval.lettingGo (perform below statement)) m

/-- Calls a value, within `n` levels. -/
def callWithin : Nat → Value → List Value → Eval Value
  | 0 => fun _ _ m => .error .outOfFuel m
  | n + 1 => fun callee arguments m =>
    let below : Evaluator :=
      ⟨n, Eval.collectIfGrown, evaluateWithin n, executeWithin n, callWithin n⟩
    atLevel n (callAny below callee arguments) m

end

/-- The evaluator for whatever takes at most `n` levels. -/
def ofFuel (n : Nat) : Evaluator :=
  ⟨n, Eval.collectIfGrown, evaluateWithin n, executeWithin n, callWithin n⟩

/-- One level of evaluating an expression; where the native stack is changed makes no difference. -/
theorem evaluate_succ (n : Nat) (e : Expression) :
    (ofFuel (n + 1)).evaluate e = Eval.kept ((ofFuel n).express e) :=
  atLevel_eq n (Eval.kept ((ofFuel n).express e))

/-- One level of executing a statement. -/
theorem execute_succ (n : Nat) (s : Statement) :
    (ofFuel (n + 1)).execute s = Eval.lettingGo ((ofFuel n).perform s) :=
  atLevel_eq n (Eval.lettingGo ((ofFuel n).perform s))

/-- One level of calling a value. -/
theorem call_succ (n : Nat) (callee : Value) (arguments : List Value) :
    (ofFuel (n + 1)).call callee arguments = (ofFuel n).callAny callee arguments :=
  atLevel_eq n ((ofFuel n).callAny callee arguments)

end Tao.Evaluator
