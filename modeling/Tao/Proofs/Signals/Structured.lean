/-
  Structured control flow.

  This evaluator has no signals.  Executing a statement gives its COMPLETION: normal, by a `break`,
  or by a `return` with its value; blocks stop at the first statement that does not complete
  normally, loops and choices end the breaks that belong to them, and a call gives the value that
  its body returned.  Nothing is written to a scope on the way.

  Expressions and built-in functions execute no statements, so they are those of `Evaluator`.
-/
import Tao.Proofs.Evaluator.Watch

namespace Tao

/-- How a statement ends. -/
inductive Completion where
  | normal
  | broke
  | returned (value : Value)

/-- What expressions, statements and calls do, where statements say how they end. -/
structure Structured where
  bound : Nat
  pause : Eval Unit
  evaluate : Expression → Eval Value
  execute : Statement → Eval Completion
  call : Value → List Value → Eval Value

namespace Structured

/-- The same evaluator, which does not say how statements end. -/
def forget (k : Structured) : Evaluator where
  bound := k.bound
  pause := k.pause
  evaluate := k.evaluate
  execute := fun statement => do
    let _ ← k.execute statement
  call := k.call

/-! ## Blocks -/

/-- Executes statements one after another until one does not complete normally. -/
def runAll (k : Structured) : List Statement → Eval Completion
  | [] => return .normal
  | statement :: rest => do
    match ← k.execute statement with
    | .normal =>
      k.pause
      k.runAll rest
    | other => return other

/-- Executes a block in a new scope inside of the active one. -/
def runNested (k : Structured) (body : List Statement) : Eval Completion := do
  let child ← Eval.newScope (← Eval.activeScope)
  Eval.within child (k.runAll body)

/-! ## Loops and choices -/

/-- One turn of a loop.  A `break` ends the loop normally. -/
def loopTurn (k : Structured) (loop : ScopeId) (held : List Value)
    (test increment : Option Expression) (body : List Statement) :
    Eval (Turn Unit Completion) := do
  if ← k.forget.passes held test then
    let scope ← Eval.newScope loop
    match ← Eval.within scope (k.runAll body) with
    | .returned value => return .done (.returned value)
    | .broke => return .done .normal
    | .normal =>
      match increment with
      | some increment =>
        let _ ← k.evaluate increment
        Eval.setHeld held
      | none => pure ()
      k.pause
      return .again ()
  else
    return .done .normal

/-- Executes a loop. -/
def runLoop (k : Structured) (init : Option Statement) (test increment : Option Expression)
    (body : List Statement) : Eval Completion := do
  let loop ← Eval.newScope (← Eval.activeScope)
  Eval.within loop do
    match init with
    | some init => k.forget.execute init
    | none => pure ()
    let held ← Eval.held
    iterate k.bound (fun _ => k.loopTurn loop held test increment body) ()

/-- Executes the body that the subject chooses.  A `break` ends the choice normally. -/
def runChoice (k : Structured) (subject : Expression) (groups : List CaseGroup)
    (otherwise : Option (List Statement)) : Eval Completion := do
  let subject ← k.evaluate subject
  let chosen ← k.forget.chosenGroup subject groups
  match chosen.or otherwise with
  | none => return .normal
  | some body =>
    match ← k.runNested body with
    | .returned value => return .returned value
    | .normal | .broke => return .normal

/-! ## All statements -/

/-- Executes a statement in the active scope. -/
def perform (k : Structured) : Statement → Eval Completion
  | .empty => return .normal
  | .define name initializer => do
    let value ←
      match initializer with
      | some value => k.evaluate value
      | none => pure .nil
    let scope ← Eval.activeScope
    Eval.store (Store.define scope name value)
    return .normal
  | .function code => do
    let _ ← k.evaluate (.function code)
    return .normal
  | .giveBack value => do
    let value ←
      match value with
      | some value => k.evaluate value
      | none => pure .nil
    return .returned value
  | .block body => k.runNested body
  | .expression value => do
    let _ ← k.evaluate value
    return .normal
  | .loop init test increment body => k.runLoop init test increment body
  | .leave => return .broke
  | .branch condition thenBody otherwise => do
    if ← Eval.truthy (← k.evaluate condition) then
      k.runNested thenBody
    else
      match otherwise with
      | some statement => k.execute statement
      | none => return .normal
  | .choose subject groups otherwise => k.runChoice subject groups otherwise

/-! ## Calls -/

/-- Calls a function.  It gives the value that its own body returned, or nil. -/
def callClosure (k : Structured) (closure : Closure) (arguments : List Value) : Eval Value := do
  Evaluator.checkDepth
  let scope ← Eval.read fun _ =>
    Evaluator.bindParams (.inside (some closure.scope)) closure.code.params arguments
  let id ← Eval.make (·.addScope scope)
  match ← Eval.deeper (Eval.within id (k.runAll closure.code.body)) with
  | .returned value => return value
  | .normal | .broke => return .nil

/-- Calls a value, which must be a function. -/
def callAny (k : Structured) (callee : Value) (arguments : List Value) : Eval Value :=
  match callee with
  | .function closure => k.callClosure closure arguments
  | .builtin builtin => k.forget.callBuiltin builtin arguments
  | other => fail (.notCallable other.type)

/-! ## Levels -/

/-- The evaluator for whatever takes at most `n` levels, where garbage is collected whenever `due`
    says so. -/
def ofFuel (due : Machine → Bool) : Nat → Structured
  | 0 => ⟨0, Eval.collectWhen due, fun _ => throw .outOfFuel, fun _ => throw .outOfFuel,
      fun _ _ => throw .outOfFuel⟩
  | n + 1 =>
    let below := ofFuel due n
    { bound := n + 1
      pause := Eval.collectWhen due
      evaluate := fun expression => Eval.kept (below.forget.express expression)
      execute := fun statement => Eval.lettingGo (below.perform statement)
      call := below.callAny }

end Structured

/-- Runs a parsed script without signals. -/
def Program.runStructured (due : Machine → Bool) (fuel : Nat) (program : Program) : Eval Value :=
  (Structured.ofFuel due fuel).forget.runScript program

end Tao
