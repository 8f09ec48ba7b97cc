/-
  What statements do.

  A block runs in a scope of its own and stops at the first signal raised there.  Whoever started it
  takes the signals down and decides what they mean: a plain block hands both on, a loop ends at
  either and hands a returned value on, a switch forgets a break.
-/
import Tao.Evaluator.Expression

namespace Tao.Evaluator

/-- Executes statements one after another until a signal is up in `scope`, with a pause after each
    that raised none. -/
def runAll (k : Evaluator) (scope : ScopeId) : List Statement → Eval Unit
  | [] => pure ()
  | statement :: rest => do
    k.execute statement
    let signal ← Eval.read fun heap => do return (← heap.scope scope).signalled
    if signal then
      pure ()
    else
      k.pause
      k.runAll scope rest

/-- Executes the statements of a block in a scope made for it. -/
def runBlock (k : Evaluator) (scope : ScopeId) (body : List Statement) : Eval Unit :=
  Eval.within scope (k.runAll scope body)

/-- Executes a block in a new scope inside of the active one and hands its signals on. -/
def runNested (k : Evaluator) (body : List Statement) : Eval Unit := do
  let outer ← Eval.activeScope
  let child ← Eval.newScope outer
  k.runBlock child body
  let (broke, returned) ← Eval.store (Store.lowerSignals child)
  if broke then
    Eval.store (Store.setBroke outer)
  else
    match returned with
    | some value => Eval.store (Store.setReturned outer value)
    | none => pure ()

/-! ## Loops -/

/-- Does the test of a loop pass?  A missing one does. -/
def passes (k : Evaluator) (held : List Value) : Option Expression → Eval Bool
  | none => pure true
  | some test => do
    let passed ← Eval.truthy (← k.evaluate test)
    Eval.setHeld held
    return passed

/-- One turn of a loop: the test, the body in a scope of its own, and the increment. -/
def loopTurn (k : Evaluator) (outer loop : ScopeId) (held : List Value)
    (test increment : Option Expression) (body : List Statement) : Eval (Turn Unit Unit) := do
  if ← k.passes held test then
    let scope ← Eval.newScope loop
    k.runBlock scope body
    let (broke, returned) ← Eval.store (Store.lowerSignals scope)
    match returned with
    | some value =>
      Eval.store (Store.setReturned outer value)
      return .done ()
    | none =>
      if broke then
        return .done ()
      match increment with
      | some increment =>
        let _ ← k.evaluate increment
        Eval.setHeld held
      | none => pure ()
      k.pause
      return .again ()
  else
    return .done ()

/-- Executes a loop.  Its first clause and its turns run in a scope of the loop. -/
def runLoop (k : Evaluator) (init : Option Statement) (test increment : Option Expression)
    (body : List Statement) : Eval Unit := do
  let outer ← Eval.activeScope
  let loop ← Eval.newScope outer
  Eval.within loop do
    match init with
    | some init => k.execute init
    | none => pure ()
    let held ← Eval.held
    iterate k.bound (fun _ => k.loopTurn outer loop held test increment body) ()

/-! ## Choices -/

/-- Is one of the labels, evaluated in turn, the same value as the subject? -/
def labelMatches (k : Evaluator) (subject : Value) : List Expression → Eval Bool
  | [] => pure false
  | label :: rest => do
    let value ← k.evaluate label
    if value.same subject then
      return true
    else
      k.labelMatches subject rest

/-- The body of the first group with a label that is the same value as the subject. -/
def chosenGroup (k : Evaluator) (subject : Value) :
    List CaseGroup → Eval (Option (List Statement))
  | [] => pure none
  | .mk labels body :: rest => do
    if ← k.labelMatches subject labels then
      return some body
    else
      k.chosenGroup subject rest

/-- Executes the body of the group that the subject chooses, or else the default one. -/
def runChoice (k : Evaluator) (subject : Expression) (groups : List CaseGroup)
    (otherwise : Option (List Statement)) : Eval Unit := do
  let subject ← k.evaluate subject
  let chosen ← k.chosenGroup subject groups
  match chosen.or otherwise with
  | none => pure ()
  | some body =>
    let outer ← Eval.activeScope
    let child ← Eval.newScope outer
    k.runBlock child body
    let (_, returned) ← Eval.store (Store.lowerSignals child)
    match returned with
    | some value => Eval.store (Store.setReturned outer value)
    | none => pure ()

/-! ## All statements -/

/-- Executes a statement in the active scope. -/
def perform (k : Evaluator) : Statement → Eval Unit
  | .empty => pure ()
  | .define name initializer => do
    let value ←
      match initializer with
      | some value => k.evaluate value
      | none => pure .nil
    let scope ← Eval.activeScope
    Eval.store (Store.define scope name value)
  | .function code => do
    let _ ← k.evaluate (.function code)
  | .giveBack value => do
    let value ←
      match value with
      | some value => k.evaluate value
      | none => pure .nil
    let scope ← Eval.activeScope
    Eval.store (Store.setReturned scope value)
  | .block body => k.runNested body
  | .expression value => do
    let _ ← k.evaluate value
  | .loop init test increment body => k.runLoop init test increment body
  | .leave => do
    let scope ← Eval.activeScope
    Eval.store (Store.setBroke scope)
  | .branch condition thenBody otherwise => do
    if ← Eval.truthy (← k.evaluate condition) then
      k.runNested thenBody
    else
      match otherwise with
      | some statement => k.execute statement
      | none => pure ()
  | .choose subject groups otherwise => k.runChoice subject groups otherwise

end Tao.Evaluator
