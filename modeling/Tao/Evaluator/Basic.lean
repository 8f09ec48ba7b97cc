/-
  Evaluators.

  Expressions, statements and calls contain one another.  An `Evaluator` gives a meaning to all
  three; the modules of this folder define what one level of a script does in terms of an evaluator
  for the levels below it, and `Tao.Evaluator.Fuel` ties the knot.
-/
import Tao.Machine

namespace Tao

/-- What expressions, statements and calls do, as far as the fuel of the evaluator reaches, a bound
    on the turns of any loop, and what is done between statements. -/
structure Evaluator where
  /-- No loop takes more turns than this. -/
  bound : Nat
  /-- What is done between two statements. -/
  pause : Eval Unit
  /-- Computes the value of an expression and keeps it alive. -/
  evaluate : Expression → Eval Value
  /-- Executes a statement in the active scope. -/
  execute : Statement → Eval Unit
  /-- Calls a value with arguments. -/
  call : Value → List Value → Eval Value

end Tao
