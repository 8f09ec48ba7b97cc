/-
  Running scripts.

  A run executes the statements of a script in the outermost scope, then calls the entry point
  without arguments, and at last flushes the sink; a flush that fails takes the place of whatever
  the call gave.  Several scripts may be run on one machine: definitions stay, also those made
  before a failure.
-/
import Tao.Evaluator.Fuel
import Tao.Parser.Script

namespace Tao

namespace Evaluator

/-- Flushes the sink after `x`, whether it failed or not. -/
def flushing {α : Type} (x : Eval α) : Eval α := fun m =>
  match x m with
  | .ok a m => if m.sink.failsFlush then .error (.failed .flushFailed) m else .ok a m
  | .error .outOfFuel m => .error .outOfFuel m
  | .error (.failed e) m =>
    if m.sink.failsFlush then .error (.failed .flushFailed) m else .error (.failed e) m

/-- The value that the name of the entry point has in the outermost scope. -/
def entryPoint : Eval Value := fun m =>
  Eval.read (·.valueOf m.root m.config.entryPoint) m

/-- Runs a script and gives what its entry point returns. -/
def runScript (k : Evaluator) (program : Program) : Eval Value := do
  program.statements.forM fun statement => do
    k.execute statement
    k.pause
  let entry ← entryPoint
  flushing (k.call entry [])

end Evaluator

/-- Runs a parsed script with a given amount of fuel. -/
def Program.run (fuel : Nat) (program : Program) : Eval Value :=
  (Evaluator.ofFuel fuel).runScript program

/-- Calls a value with a given amount of fuel. -/
def Value.call (fuel : Nat) (callee : Value) (arguments : List Value) : Eval Value :=
  (Evaluator.ofFuel fuel).call callee arguments

/-- More fuel than any run can use up in practice. -/
def ampleFuel : Nat := fullStacks (1 <<< 60)

/-- Puts an error in the text or in the run among all errors. -/
def Halt.map {ε δ : Type} (f : ε → δ) : Halt ε → Halt δ
  | failed error => failed (f error)
  | outOfFuel => outOfFuel

/-- Parses and runs the text of a script. -/
def runText (fuel : Nat) (text : String) : Fueled Error Machine Value := fun m =>
  match parse text with
  | .error halt => .error (halt.map .text) m
  | .ok program =>
    match program.run fuel m with
    | .ok value m => .ok value m
    | .error halt m => .error (halt.map .run) m

end Tao
