/-
  Pushing and popping.

  The combinators of `Eval` remember what they change and set it back.  A machine with stacks has no
  such memory: it takes off the scope it pushed last, cuts the values held down to the number that
  there were, and counts one call less.

  1. **Specification** (`Evaluator.ByStacks`) — blocks, loops, calls and statements as they are with
     stacks and a counter.

  2. **The crux** — a stack is as it was once something is popped only if it was given back in
     between.  Everything that runs inside of these combinators is balanced, also when it fails, so
     evaluators do it all by stacks.

  3. **Whole runs** (`Evaluator.gives_control_back`) — every run, whether it fails or not, gives a
     machine that is where it was: what later runs can see of it is in the heap, in the sink, in the
     next allowance for garbage and in the stamps already used.
-/
import Tao.Proofs.Control.Levels

namespace Tao

open Eval (Balanced)

namespace Eval

/-! ## Stacks and a counter -/

/-- Runs `x` with `scope` as the active scope, then takes the last scope off the stack of those to
    come back to. -/
def pushing {α : Type} (scope : ScopeId) (x : Eval α) : Eval α := fun m =>
  let previous := m.scope
  match x { m with scope, frames := previous :: m.frames } with
  | .ok a m => .ok a { m with scope := previous, frames := m.frames.tail }
  | .error e m => .error e { m with scope := previous, frames := m.frames.tail }

/-- Counts a call more, runs `x` and counts a call less. -/
def counting {α : Type} (x : Eval α) : Eval α := fun m =>
  match x { m with depth := m.depth + 1 } with
  | .ok a m => .ok a { m with depth := m.depth - 1 }
  | .error e m => .error e { m with depth := m.depth - 1 }

/-- The number of values held. -/
def mark : Eval Nat := fun m => .ok m.held.length m

/-- Takes values off the stack until there are no more than `mark`. -/
def cut (mark : Nat) (held : List Value) : List Value := held.drop (held.length - mark)

/-- Cuts the values held down to `mark`. -/
def cutTo (mark : Nat) : Eval Unit := fun m => .ok () { m with held := cut mark m.held }

/-- Runs `x` and cuts the values held down to the number that there were, even if it fails. -/
def cutting {α : Type} (x : Eval α) : Eval α := fun m =>
  let mark := m.held.length
  match x m with
  | .ok a m => .ok a { m with held := cut mark m.held }
  | .error e m => .error e { m with held := cut mark m.held }

/-- Cutting down to the number of values that were held leaves these values. -/
theorem cut_of_suffix {held more : List Value} (h : held <:+ more) :
    cut held.length more = held := by
  obtain ⟨front, rfl⟩ := h
  unfold cut
  rw [List.length_append, Nat.add_sub_cancel]
  exact List.drop_left

variable {α : Type} {x : Eval α} {held : List Value}

/-- What is popped is what was pushed. -/
theorem within_eq_pushing (hx : ∀ base, Balanced false base x) (scope : ScopeId) :
    within scope x = pushing scope x := by
  funext m
  have hback := (Balanced.back hx { m with scope, frames := m.scope :: m.frames }).frames_eq
  unfold within pushing
  unfold reached at hback
  dsimp only at hback ⊢
  cases hresult : x { m with scope, frames := m.scope :: m.frames } with
  | ok a m' =>
    rw [hresult] at hback
    have htail : m'.frames.tail = m.frames := congrArg List.tail hback
    simp only [htail]
  | error e m' =>
    rw [hresult] at hback
    have htail : m'.frames.tail = m.frames := congrArg List.tail hback
    simp only [htail]

/-- The call that is counted off is the one that was counted. -/
theorem deeper_eq_counting (hx : ∀ base, Balanced false base x) : deeper x = counting x := by
  funext m
  have hback := (Balanced.back hx { m with depth := m.depth + 1 }).depth_eq
  unfold deeper counting
  unfold reached at hback
  dsimp only at hback ⊢
  cases hresult : x { m with depth := m.depth + 1 } with
  | ok a m' =>
    rw [hresult] at hback
    have hdepth : m'.depth - 1 = m.depth := by
      have hback : m'.depth = m.depth + 1 := hback
      omega
    simp only [hdepth]
  | error e m' =>
    rw [hresult] at hback
    have hdepth : m'.depth - 1 = m.depth := by
      have hback : m'.depth = m.depth + 1 := hback
      omega
    simp only [hdepth]

/-- The values that are left are those that were held before. -/
theorem lettingGo_eq_cutting (hx : ∀ base, Balanced false base x) : lettingGo x = cutting x := by
  funext m
  have hback := (Balanced.back hx m).held
  unfold lettingGo cutting
  unfold reached at hback
  dsimp only at hback ⊢
  cases hresult : x m with
  | ok a m' =>
    rw [hresult] at hback
    simp only [cut_of_suffix hback]
  | error e m' =>
    rw [hresult] at hback
    simp only [cut_of_suffix hback]

/-! ## Marks -/

/-- At least these values are held. -/
def Over (held : List Value) (m : Machine) : Prop := held <:+ m.held

/-- A computation that is balanced relative to every machine that holds less never lets go of what
    is held. -/
theorem stays_over (hx : ∀ base, base.held <:+ held → Balanced false base x) :
    Stays (Over held) x := by
  intro m hheld
  have hback : Machine.Back false { m with held } m := ⟨rfl, hheld, nofun⟩
  exact (hx { m with held } List.suffix_rfl m hback).held

/-- Going back to a mark lets go of what was held since. -/
theorem sameOn_setHeld : SameOn (Over held) (setHeld held) (cutTo held.length) := by
  intro m hheld
  unfold setHeld cutTo
  rw [cut_of_suffix hheld]

end Eval

open Eval (SameOn Over stays_over)

namespace Evaluator

variable (k : Evaluator)

/-! ## Blocks, loops and calls by stacks -/

/-- Does the test of a loop pass?  What it made the machine hold is cut off. -/
def passesCutting (mark : Nat) : Option Expression → Eval Bool
  | none => pure true
  | some test => do
    let passed ← Eval.truthy (← k.evaluate test)
    Eval.cutTo mark
    return passed

/-- One turn of a loop. -/
def loopTurnCutting (outer loop : ScopeId) (mark : Nat) (test increment : Option Expression)
    (body : List Statement) : Eval (Turn Unit Unit) := do
  if ← k.passesCutting mark test then
    let scope ← Eval.newScope loop
    k.runBlock scope body
    let (broke, returned) ← Eval.store (Store.lowerSignals scope)
    match returned with
    | some value =>
      Eval.store (Store.setReturned outer value)
      return .done ()
    | none =>
      if broke then
        return .done ()
      match increment with
      | some increment =>
        let _ ← k.evaluate increment
        Eval.cutTo mark
      | none => pure ()
      k.pause
      return .again ()
  else
    return .done ()

/-- What is done in the scope of a loop, its mark being a number. -/
def insideLoopCutting (init : Option Statement) (test increment : Option Expression)
    (body : List Statement) (outer loop : ScopeId) : Eval Unit := do
  match init with
  | some init => k.execute init
  | none => pure ()
  let mark ← Eval.mark
  iterate k.bound (fun _ => k.loopTurnCutting outer loop mark test increment body) ()

/-- What evaluators do with stacks and a counter; `above` is the next level. -/
structure ByStacks (above : Evaluator) : Prop where
  execute : ∀ statement, above.execute statement = Eval.cutting (k.perform statement)
  runBlock : ∀ scope body, k.runBlock scope body = Eval.pushing scope (k.runAll scope body)
  runLoop : ∀ init test increment body, k.runLoop init test increment body = do
    let outer ← Eval.activeScope
    let loop ← Eval.newScope outer
    Eval.pushing loop (k.insideLoopCutting init test increment body outer loop)
  callClosure : ∀ closure arguments, k.callClosure closure arguments = do
    checkDepth
    let scope ← Eval.read fun _ =>
      bindParams (.inside (some closure.scope)) closure.code.params arguments
    let id ← Eval.make (·.addScope scope)
    Eval.counting (Eval.pushing id (k.runAll id closure.code.body))
    let (_, returned) ← Eval.store (Store.lowerSignals id)
    return returned.getD .nil

variable {k : Evaluator} {held : List Value} {test increment : Option Expression}
  {body : List Statement}

/-- A test makes the machine hold nothing beneath the mark, so cutting lets go of just what it
    held. -/
theorem GivesBack.sameOn_passes (h : k.GivesBack) :
    SameOn (Over held) (k.passes held test) (k.passesCutting held.length test) := by
  cases test with
  | none => exact .refl
  | some test =>
    refine SameOn.refl.bind (stays_over fun base _ => h.evaluate base test) fun value => ?_
    refine SameOn.refl.bind (stays_over fun _ _ => .truthy value) fun passed => ?_
    exact Eval.sameOn_setHeld.bind (stays_over fun _ hheld => .setHeld hheld) fun _ => .refl

/-- The same of a whole turn: everything in it leaves at least what was held at the mark. -/
theorem GivesBack.sameOn_loopTurn (h : k.GivesBack) (outer loop : ScopeId) :
    SameOn (Over held) (k.loopTurn outer loop held test increment body)
      (k.loopTurnCutting outer loop held.length test increment body) := by
  refine h.sameOn_passes.bind (stays_over fun _ hheld => h.passes hheld test) fun passed => ?_
  cases passed with
  | false => exact .refl
  | true =>
    refine SameOn.refl.bind (stays_over fun _ _ => .newScope loop) fun scope => ?_
    refine SameOn.refl.bind (stays_over fun _ _ => h.runBlock scope body) fun _ => ?_
    refine SameOn.refl.bind (stays_over fun _ _ => .store _) fun signals => ?_
    obtain ⟨broke, returned⟩ := signals
    cases returned with
    | some value => exact .refl
    | none =>
      cases broke with
      | true => exact .refl
      | false =>
        cases increment with
        | none => exact .refl
        | some increment =>
          refine SameOn.refl.bind (stays_over fun base _ => h.evaluate base increment) fun _ => ?_
          exact Eval.sameOn_setHeld.bind (stays_over fun _ hheld => .setHeld hheld) fun _ => .refl

/-- The mark of a loop is the number of values held once the first clause was executed. -/
theorem GivesBack.insideLoop_eq (h : k.GivesBack) (init : Option Statement)
    (outer loop : ScopeId) :
    (do
      match init with
      | some init => k.execute init
      | none => pure ()
      let held ← Eval.held
      iterate k.bound (fun _ => k.loopTurn outer loop held test increment body) ()) =
      k.insideLoopCutting init test increment body outer loop := by
  have hturns : (Eval.held >>= fun held =>
      iterate k.bound (fun _ => k.loopTurn outer loop held test increment body) ()) =
      Eval.mark >>= fun mark =>
        iterate k.bound (fun _ => k.loopTurnCutting outer loop mark test increment body) () := by
    funext m
    have hsame : SameOn (Over m.held)
        (iterate k.bound (fun _ => k.loopTurn outer loop m.held test increment body) ())
        (iterate k.bound
          (fun _ => k.loopTurnCutting outer loop m.held.length test increment body) ()) :=
      .iterate _ _ (fun _ => h.sameOn_loopTurn outer loop) fun _ =>
        stays_over fun _ hheld => h.loopTurn hheld outer loop
    exact hsame m List.suffix_rfl
  unfold insideLoopCutting
  cases init with
  | none => exact congrArg (fun x => (do let _ ← pure (); x)) hturns
  | some init => exact congrArg (fun x => (do let _ ← k.execute init; x)) hturns

/-- Evaluators do it by stacks. -/
theorem byStacks_ofFuel (n : Nat) : (ofFuel n).ByStacks (ofFuel (n + 1)) := by
  have h := givesBack_ofFuel n
  have hblock : ∀ scope body,
      (ofFuel n).runBlock scope body = Eval.pushing scope ((ofFuel n).runAll scope body) := by
    intro scope body
    exact Eval.within_eq_pushing (fun _ => h.runAll scope body) scope
  refine ⟨fun statement => ?_, hblock, fun init test increment body => ?_,
    fun closure arguments => ?_⟩
  · rw [execute_succ]
    exact Eval.lettingGo_eq_cutting fun _ => h.perform statement
  · unfold runLoop
    refine congrArg (Eval.activeScope >>= ·) (funext fun outer => ?_)
    refine congrArg (Eval.newScope outer >>= ·) (funext fun loop => ?_)
    rw [← h.insideLoop_eq init outer loop]
    exact Eval.within_eq_pushing (fun _ => h.insideLoop init outer loop) loop
  · unfold callClosure
    have hcounting : ∀ id, Eval.deeper (Eval.pushing id ((ofFuel n).runAll id closure.code.body)) =
        Eval.counting (Eval.pushing id ((ofFuel n).runAll id closure.code.body)) := by
      intro id
      rw [← hblock]
      exact Eval.deeper_eq_counting fun _ => h.runBlock id closure.code.body
    simp only [hblock, hcounting]

end Evaluator

/-! ## Whole runs -/

/-- No run is under way: the outermost scope is active, and there is nothing to come back to,
    nothing held and no call to end. -/
def Machine.Idle (m : Machine) : Prop :=
  m.scope = m.root ∧ m.frames = [] ∧ m.held = [] ∧ m.depth = 0

/-- A machine that differs only in what a run may leave behind. -/
def Machine.leaving (m after : Machine) : Machine :=
  { m with heap := after.heap, sink := after.sink, nextGc := after.nextGc, stamps := after.stamps }

/-- A machine that is exactly back differs only in what a run may leave behind. -/
theorem Machine.Back.eq_leaving {m after : Machine} (h : Machine.Back true m after) :
    after = m.leaving after := by
  have hscope := h.scope_eq
  have hroot := congrArg Control.root h.control
  have hconfig := congrArg Control.config h.control
  have hdepth := h.depth_eq
  have hframes := h.frames_eq
  have hheld := h.exact rfl
  unfold Machine.leaving
  obtain ⟨heap, scope, root, config, sink, depth, frames, held, nextGc, stamps⟩ := after
  simp only [Machine.mk.injEq]
  exact ⟨trivial, hscope, hroot, hconfig, trivial, hdepth, hframes, hheld, trivial, trivial⟩

/-- The machine after scripts were run on it one after another, each whether or not the one before
    it failed. -/
def Machine.afterRuns (fuel : Nat) (m : Machine) (programs : List Program) : Machine :=
  programs.foldl (fun m program => (program.run fuel).reached m) m

/-- A run gives everything back, whether it succeeds or not. -/
theorem Program.back_run (fuel : Nat) (program : Program) (m : Machine) :
    Machine.Back true m ((program.run fuel).reached m) :=
  Balanced.back (fun _ => (Evaluator.givesBack_ofFuel fuel).runScript program) m

/-- Induction on the scripts that are run. -/
theorem Machine.back_afterRuns (fuel : Nat) (m : Machine) (programs : List Program) :
    Machine.Back true m (m.afterRuns fuel programs) := by
  induction programs generalizing m with
  | nil => exact .refl
  | cons program rest ih => exact (program.back_run fuel m).trans (ih _)

/-- Whatever is run, and whether it succeeds or halts for any reason, the control state is given
    back.  A statement leaves the values held as they were; an expression and a call may add to
    them; a whole run leaves everything but heap, sink, next allowance and stamps, so that a
    machine on which no run is under way stays one.  All of this comes about by pushing and
    popping. -/
theorem Evaluator.gives_control_back (n : Nat) (m : Machine) :
    (∀ statement, let after := ((ofFuel n).execute statement).reached m
      after.control = m.control ∧ after.held = m.held) ∧
    (∀ expression, let after := ((ofFuel n).evaluate expression).reached m
      after.control = m.control ∧ m.held <:+ after.held) ∧
    (∀ callee arguments, let after := ((ofFuel n).call callee arguments).reached m
      after.control = m.control ∧ m.held <:+ after.held) ∧
    (∀ programs, let after := m.afterRuns n programs
      after = m.leaving after ∧ (after.Idle ↔ m.Idle)) ∧
    (ofFuel n).ByStacks (ofFuel (n + 1)) := by
  have h := givesBack_ofFuel n
  refine ⟨fun statement => ?_, fun expression => ?_, fun callee arguments => ?_,
    fun programs => ?_, byStacks_ofFuel n⟩
  · have hback := Balanced.back (fun base => h.execute true base statement) m
    exact ⟨hback.control, hback.exact rfl⟩
  · have hback := Balanced.back (fun base => h.evaluate base expression) m
    exact ⟨hback.control, hback.held⟩
  · have hback := Balanced.back (fun base => h.call false base callee arguments nofun) m
    exact ⟨hback.control, hback.held⟩
  · have hleaving := (m.back_afterRuns n programs).eq_leaving
    refine ⟨hleaving, ?_⟩
    show (m.afterRuns n programs).Idle ↔ m.Idle
    rw [hleaving]
    exact Iff.rfl

end Tao
