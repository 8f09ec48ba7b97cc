/-
  Runs under watch.

  Some claims are about every point of a run: every pause, every call, every statement executed on
  the way.  They are made here without traces.  A WATCH is put around all activations of an
  evaluator; it may look at the machine and raise an ALARM, a halt that the watched run ends with.
  A property holds at every point of a run if the watched run is the run itself, whatever halt
  serves as the alarm: no halt of the run can be mistaken for all of them.

  A watch may also change what is done, such as when garbage is collected.
-/
import Tao.Run

namespace Tao

/-! ## Checks -/

namespace Eval

/-- Goes on if the machine satisfies a test, and raises the alarm otherwise. -/
def require (test : Machine → Prop) [DecidablePred test] (alarm : Halt RuntimeError) : Eval Unit :=
  fun m => if test m then .ok () m else .error alarm m

/-- Runs `x`.  Raises the alarm if it succeeds without doing what it ought to do: `duty` relates the
    machine before, the result and the machine after. -/
def ensure {α : Type} (duty : Machine → α → Machine → Prop) [∀ m a m', Decidable (duty m a m')]
    (alarm : Halt RuntimeError) (x : Eval α) : Eval α := fun m =>
  match x m with
  | .ok a m' => if duty m a m' then .ok a m' else .error alarm m'
  | .error e m' => .error e m'

/-- Collects garbage if `due` says so, and sets the next allowance. -/
def collectWhen (due : Machine → Bool) : Eval Unit := fun m =>
  if due m then
    let (heap, _) := m.heap.collect (m.root :: m.scope :: m.frames) m.held
    let nextGc := max m.config.gcThreshold (heap.live * 2)
    .ok () { m with heap, nextGc }
  else .ok () m

end Eval

/-- Has the heap outgrown its allowance? -/
def Machine.hasGrown (m : Machine) : Bool := m.nextGc < m.heap.live

/-- Collecting when the heap has grown is what runs do. -/
theorem Eval.collectWhen_hasGrown : Eval.collectWhen Machine.hasGrown = Eval.collectIfGrown := by
  funext m
  unfold collectWhen collectIfGrown Machine.hasGrown
  by_cases h : m.heap.live ≤ m.nextGc
  · rw [if_pos h, if_neg (by simpa using h)]
  · rw [if_neg h, if_pos (by simpa using h)]

/-! ## Watches -/

/-- What is done around the activations of an evaluator, and between two statements. -/
structure Watch where
  pause : Eval Unit
  evaluate : Expression → Eval Value → Eval Value
  execute : Statement → Eval Unit → Eval Unit
  /-- Around every call. -/
  call : Value → List Value → Eval Value → Eval Value
  /-- Around a call that a built-in function makes. -/
  callBack : Value → List Value → Eval Value → Eval Value

/-- Nobody watches, and garbage is collected whenever `due` says so. -/
def Watch.idle (due : Machine → Bool) : Watch :=
  ⟨Eval.collectWhen due, fun _ x => x, fun _ x => x, fun _ _ x => x, fun _ _ x => x⟩

namespace Evaluator

/-- An evaluator whose calls, made by a built-in function, are watched. -/
def callingBack (k : Evaluator) (watch : Watch) : Evaluator :=
  { k with
    call := fun callee arguments => watch.callBack callee arguments (k.call callee arguments) }

/-- The evaluator for whatever takes at most `n` levels, under watch. -/
def watched (watch : Watch) : Nat → Evaluator
  | 0 => ⟨0, watch.pause, fun _ => throw .outOfFuel, fun _ => throw .outOfFuel,
      fun _ _ => throw .outOfFuel⟩
  | n + 1 =>
    let below := watched watch n
    { bound := n + 1
      pause := watch.pause
      evaluate := fun expression =>
        watch.evaluate expression (Eval.kept (below.express expression))
      execute := fun statement =>
        watch.execute statement (Eval.lettingGo (below.perform statement))
      call := fun callee arguments =>
        watch.call callee arguments ((below.callingBack watch).callAny callee arguments) }

/-- Unwatched, and with garbage collected as usual, this is the evaluator that scripts run with. -/
theorem watched_idle (n : Nat) : watched (.idle Machine.hasGrown) n = ofFuel n := by
  induction n with
  | zero =>
    unfold watched ofFuel Watch.idle
    rw [Eval.collectWhen_hasGrown]
    rfl
  | succ n ih =>
    have hevaluate : (fun expression => Eval.kept ((ofFuel n).express expression))
        = evaluateWithin (n + 1) := by
      funext expression
      exact (evaluate_succ n expression).symm
    have hexecute : (fun statement => Eval.lettingGo ((ofFuel n).perform statement))
        = executeWithin (n + 1) := by
      funext statement
      exact (execute_succ n statement).symm
    have hcall : (ofFuel n).callAny = callWithin (n + 1) := by
      funext callee arguments
      exact (call_succ n callee arguments).symm
    unfold watched
    rw [ih]
    show Evaluator.mk (n + 1) (Eval.collectWhen Machine.hasGrown) _ _ _ = _
    unfold ofFuel
    rw [Eval.collectWhen_hasGrown, ← hevaluate, ← hexecute, ← hcall]
    rfl

end Evaluator

/-- Runs a parsed script with a given amount of fuel, under watch. -/
def Program.runWatched (watch : Watch) (fuel : Nat) (program : Program) : Eval Value :=
  (Evaluator.watched watch fuel).runScript program

/-- Runs a parsed script with a given amount of fuel, collecting garbage whenever `due` says so. -/
def Program.runWhen (due : Machine → Bool) (fuel : Nat) (program : Program) : Eval Value :=
  program.runWatched (.idle due) fuel

/-- Scripts are run with a collection whenever the heap has outgrown its allowance. -/
theorem Program.runWhen_hasGrown (fuel : Nat) (program : Program) :
    program.runWhen Machine.hasGrown fuel = program.run fuel := by
  unfold runWhen runWatched run
  rw [Evaluator.watched_idle]

end Tao
