/-
  Every activation is balanced.

  If expressions, statements and calls are balanced below a level, they are so at the level: there
  is one lemma for each function of the evaluator.  An evaluated expression stays held, so only
  statements are balanced exactly, and calls that are given nothing: a function of a script is run
  by statements, and a method that calls back fails without one to call.
-/
import Tao.Proofs.Control.Balance

namespace Tao

open Eval (Balanced)

/-- Expressions, statements, calls and pauses give the control state back. -/
structure Evaluator.GivesBack (k : Evaluator) : Prop where
  pause : ∀ exact base, Balanced exact base k.pause
  evaluate : ∀ base e, Balanced false base (k.evaluate e)
  execute : ∀ exact base s, Balanced exact base (k.execute s)
  call : ∀ exact base callee arguments, (exact = true → arguments = []) →
    Balanced exact base (k.call callee arguments)

/-- A watch that gives the control state back if what it watches does. -/
structure Watch.GivesBack (w : Watch) : Prop where
  pause : ∀ exact base, Balanced exact base w.pause
  evaluate : ∀ {base e x}, Balanced false base x → Balanced false base (w.evaluate e x)
  execute : ∀ {exact base s x}, Balanced exact base x → Balanced exact base (w.execute s x)
  call : ∀ {exact base callee arguments x}, Balanced exact base x →
    Balanced exact base (w.call callee arguments x)
  callBack : ∀ {exact base callee arguments x}, Balanced exact base x →
    Balanced exact base (w.callBack callee arguments x)

/-- Without a watch there is nothing but collections to look at. -/
theorem Watch.givesBack_idle (due : Machine → Bool) : (Watch.idle due).GivesBack where
  pause _ _ := .collectWhen due
  evaluate h := h
  execute h := h
  call h := h
  callBack h := h

variable {exact : Bool} {base : Machine}

/-! ## Places -/

/-- Reading an element or member may give out a stamp; that is no part of the control state. -/
theorem Eval.Balanced.loadSlot (target key : Value) :
    Balanced exact base (loadSlot target key) := by
  unfold Tao.loadSlot
  split
  case h_3 => exact freshStamp.bind fun _ => read _
  case h_5 => exact freshStamp.bindPure _
  all_goals first | exact read _ | exact fail _

/-- Storing to an element or property changes the heap, or fails. -/
theorem Eval.Balanced.storeSlot (target key value : Value) :
    Balanced exact base (storeSlot target key value) := by
  unfold Tao.storeSlot
  split
  case h_3 =>
    split
    · exact fail _
    · exact store _
  all_goals first | exact store _ | exact fail _

/-- So reading a place is balanced. -/
theorem Place.balanced_load (place : Place) : Balanced exact base place.load := by
  cases place with
  | name text => exact Balanced.activeScope.bind fun _ => .read _
  | slot target key => exact .loadSlot target key

theorem Place.balanced_store (value : Value) (place : Place) :
    Balanced exact base (place.store value) := by
  cases place with
  | name text => exact Balanced.activeScope.bind fun _ => .store _
  | slot target key => exact .storeSlot target key value

/-- Making an object or array is balanced. -/
theorem Maker.balanced_make (maker : Maker) (arguments : List Value) :
    Balanced exact base (maker.make arguments) := by
  cases maker with
  | object => exact (Balanced.make _).bindPure _
  | array => exact (Balanced.read _).bind fun _ => (Balanced.make _).bindPure _

namespace Evaluator

/-- Making a function is balanced, also where its name is defined. -/
theorem balanced_makeFunction (code : FunctionCode) : Balanced exact base (makeFunction code) := by
  unfold makeFunction
  refine Balanced.activeScope.bind fun scope => Balanced.freshStamp.bind fun stamp => ?_
  cases code.name with
  | none => exact .pure _
  | some name => exact (Balanced.store _).bind fun _ => .pure _

/-- So is a step on a place, which reads and then stores. -/
theorem balanced_step (operator : Kind) (before : Bool) (place : Place) :
    Balanced exact base (step operator before place) := by
  refine place.balanced_load.bind fun old => ?_
  cases old with
  | number old => exact (place.balanced_store _).bind fun _ => .pure _
  | _ => exact .fail _

/-- The check looks at the depth and leaves it. -/
theorem balanced_checkDepth : Balanced exact base checkDepth := by
  refine .of_same fun m => ?_
  unfold checkDepth Eval.reached
  dsimp only
  by_cases hdeep : m.config.maxCallDepth ≤ m.depth
  · rw [if_pos hdeep]
    exact ⟨rfl, rfl⟩
  · rw [if_neg hdeep]
    exact ⟨rfl, rfl⟩

/-- Looking for the entry point leaves the machine as it is. -/
theorem balanced_entryPoint : Balanced exact base entryPoint := by
  refine .of_same fun m => ?_
  unfold entryPoint Eval.read Eval.reached
  dsimp only
  cases m.heap.valueOf m.root m.config.entryPoint <;> exact ⟨rfl, rfl⟩

namespace GivesBack

variable {k : Evaluator} {e : Expression} {s : Statement} {test increment : Option Expression}
  {body : List Statement} {held : List Value}

/-- The parts of a place are evaluated, and their values stay held. -/
theorem place (h : k.GivesBack) (e : Expression) : Balanced false base (k.place e) := by
  cases e with
  | name text => exact .pure _
  | index target key =>
    exact (h.evaluate base target).bind fun _ => (h.evaluate base key).bindPure _
  | _ => exact .fail _

theorem evaluateAll (h : k.GivesBack) (es : List Expression) :
    Balanced false base (es.mapM k.evaluate) :=
  .mapM es fun e => h.evaluate base e

/-! ## Expressions -/

/-- The right operand of `&&` and `||` may not be evaluated at all, which makes no difference
    here. -/
theorem binary (h : k.GivesBack) (operator : Kind) (left right : Expression) :
    Balanced false base (k.express (.binary operator left right)) := by
  have hright : Balanced false base
      (do return Value.boolean (← Eval.truthy (← k.evaluate right))) :=
    (h.evaluate base right).bind fun value => (Balanced.truthy value).bindPure _
  unfold express
  refine (h.evaluate base left).bind fun value => ?_
  split
  · refine (Balanced.truthy value).bind fun passed => ?_
    cases passed with
    | true => exact hright
    | false => exact .pure _
  · split
    · refine (Balanced.truthy value).bind fun passed => ?_
      cases passed with
      | true => exact .pure _
      | false => exact hright
    · exact (h.evaluate base right).bind fun _ => .read _

/-- An expression of any kind is balanced.  Case analysis on the expression. -/
theorem express (h : k.GivesBack) (e : Expression) : Balanced false base (k.express e) := by
  cases e with
  | literal value => exact .pure _
  | name text => exact (Place.name text).balanced_load
  | unary operator operand =>
    unfold Evaluator.express
    refine (h.evaluate base operand).bind fun value => ?_
    split
    · exact (Balanced.truthy value).bindPure _
    · exact .read _
  | step operator before target =>
    exact (h.place target).bind fun place => balanced_step operator before place
  | binary operator left right => exact h.binary operator left right
  | conditional condition thenValue elseValue =>
    refine (h.evaluate base condition).bind fun value => ?_
    refine (Balanced.truthy value).bind fun passed => ?_
    cases passed with
    | true => exact h.evaluate base thenValue
    | false => exact h.evaluate base elseValue
  | construct maker arguments =>
    refine (h.evaluate base maker).bind fun maker => (h.evaluateAll arguments).bind fun values => ?_
    cases maker with
    | maker maker => exact maker.balanced_make values
    | _ => exact .fail _
  | assign target value =>
    refine (h.evaluate base value).bind fun value => (h.place target).bind fun place => ?_
    exact (place.balanced_store value).bind fun _ => .pure _
  | function code => exact balanced_makeFunction code
  | index target key =>
    exact (h.evaluate base target).bind fun target => (h.evaluate base key).bind fun key =>
      .loadSlot target key
  | call callee arguments =>
    exact (h.evaluate base callee).bind fun callee => (h.evaluateAll arguments).bind fun values =>
      h.call false base callee values nofun
  | object entries =>
    refine (Balanced.foldlM entries [] fun props entry => ?_).bind fun props =>
      (Balanced.make _).bindPure _
    obtain ⟨key, value⟩ := entry
    exact (h.evaluate base value).bindPure _
  | array elements =>
    exact (h.evaluateAll elements).bind fun values => (Balanced.make _).bindPure _

/-! ## Statements -/

/-- A body is run up to its first signal.  Induction on its statements. -/
theorem runAll (h : k.GivesBack) (scope : ScopeId) (body : List Statement) :
    Balanced exact base (k.runAll scope body) := by
  induction body with
  | nil => exact .pure _
  | cons s rest ih =>
    refine (h.execute exact base s).bind fun _ => (Balanced.read _).bind fun signal => ?_
    cases signal with
    | true => exact .pure _
    | false => exact (h.pause exact base).bind fun _ => ih

theorem runBlock (h : k.GivesBack) (scope : ScopeId) (body : List Statement) :
    Balanced exact base (k.runBlock scope body) :=
  .within (fun _ => h.runAll scope body) scope

theorem balanced_handOn (outer : ScopeId) (returned : Option Value) :
    Balanced exact base (match returned with
      | some value => Eval.store (Store.setReturned outer value)
      | none => pure ()) := by
  cases returned with
  | some value => exact .store _
  | none => exact .pure _

/-- A nested block is run in a scope of its own, and its signals are handed on. -/
theorem runNested (h : k.GivesBack) (body : List Statement) :
    Balanced exact base (k.runNested body) := by
  refine Balanced.activeScope.bind fun outer => (Balanced.newScope outer).bind fun child => ?_
  refine (h.runBlock child body).bind fun _ => (Balanced.store _).bind fun signals => ?_
  obtain ⟨broke, returned⟩ := signals
  cases broke with
  | true => exact .store _
  | false => exact balanced_handOn outer returned

/-- A test lets go of what was held since the mark. -/
theorem passes (h : k.GivesBack) (hheld : base.held <:+ held) (test : Option Expression) :
    Balanced false base (k.passes held test) := by
  cases test with
  | none => exact .pure _
  | some test =>
    refine (h.evaluate base test).bind fun value => (Balanced.truthy value).bind fun passed => ?_
    exact (Balanced.setHeld hheld).bind fun _ => .pure _

/-- One turn of a loop goes back to the mark set before the turns. -/
theorem loopTurn (h : k.GivesBack) (hheld : base.held <:+ held) (outer loop : ScopeId) :
    Balanced false base (k.loopTurn outer loop held test increment body) := by
  refine (h.passes hheld test).bind fun passed => ?_
  cases passed with
  | false => exact .pure _
  | true =>
    refine (Balanced.newScope loop).bind fun scope => (h.runBlock scope body).bind fun _ => ?_
    refine (Balanced.store _).bind fun signals => ?_
    obtain ⟨broke, returned⟩ := signals
    cases returned with
    | some value => exact (Balanced.store _).bind fun _ => .pure _
    | none =>
      cases broke with
      | true => exact .pure _
      | false =>
        cases increment with
        | none => exact (h.pause false base).bind fun _ => .pure _
        | some increment =>
          refine (h.evaluate base increment).bind fun _ => (Balanced.setHeld hheld).bind fun _ => ?_
          exact (h.pause false base).bind fun _ => .pure _

/-- What a loop does in its scope: the first clause, a mark, and turns that go back to it. -/
theorem insideLoop (h : k.GivesBack) (init : Option Statement) (outer loop : ScopeId) :
    Balanced false base (do
      match init with
      | some init => k.execute init
      | none => pure ()
      let held ← Eval.held
      iterate k.bound (fun _ => k.loopTurn outer loop held test increment body) ()) := by
  have hturns : Balanced false base (Eval.held >>= fun held =>
      iterate k.bound (fun _ => k.loopTurn outer loop held test increment body) ()) :=
    .bindHeld fun held hheld => .iterate _ _ fun _ => h.loopTurn hheld outer loop
  cases init with
  | none => exact hturns
  | some init => exact (h.execute false base init).bind fun _ => hturns

theorem runLoop (h : k.GivesBack) (init : Option Statement) :
    Balanced false base (k.runLoop init test increment body) := by
  refine Balanced.activeScope.bind fun outer => (Balanced.newScope outer).bind fun loop => ?_
  exact .within (fun _ => h.insideLoop init outer loop) loop

/-- Labels are evaluated up to the first that matches. -/
theorem labelMatches (h : k.GivesBack) (subject : Value) (labels : List Expression) :
    Balanced false base (k.labelMatches subject labels) := by
  induction labels with
  | nil => exact .pure _
  | cons label rest ih =>
    unfold Evaluator.labelMatches
    refine (h.evaluate base label).bind fun value => ?_
    split
    · exact .pure _
    · exact ih

theorem chosenGroup (h : k.GivesBack) (subject : Value) (groups : List CaseGroup) :
    Balanced false base (k.chosenGroup subject groups) := by
  induction groups with
  | nil => exact .pure _
  | cons group rest ih =>
    obtain ⟨labels, body⟩ := group
    refine (h.labelMatches subject labels).bind fun found => ?_
    cases found with
    | true => exact .pure _
    | false => exact ih

/-- The body that is chosen is run in a scope of its own. -/
theorem runChoice (h : k.GivesBack) (subject : Expression) (groups : List CaseGroup)
    (otherwise : Option (List Statement)) :
    Balanced false base (k.runChoice subject groups otherwise) := by
  refine (h.evaluate base subject).bind fun subject => ?_
  refine (h.chosenGroup subject groups).bind fun chosen => ?_
  cases chosen.or otherwise with
  | none => exact .pure _
  | some body =>
    refine Balanced.activeScope.bind fun outer => (Balanced.newScope outer).bind fun child => ?_
    refine (h.runBlock child body).bind fun _ => (Balanced.store _).bind fun signals => ?_
    exact balanced_handOn outer signals.2

/-- A statement of any kind is balanced, though not yet exactly: what it made the machine hold is
    let go around it. -/
theorem perform (h : k.GivesBack) (s : Statement) : Balanced false base (k.perform s) := by
  cases s with
  | empty => exact .pure _
  | define name initializer =>
    cases initializer with
    | none => exact (Balanced.pure _).bind fun _ => Balanced.activeScope.bind fun _ => .store _
    | some value =>
      exact (h.evaluate base value).bind fun _ => Balanced.activeScope.bind fun _ => .store _
  | function code => exact (h.evaluate base _).bind fun _ => .pure _
  | giveBack value =>
    cases value with
    | none => exact (Balanced.pure _).bind fun _ => Balanced.activeScope.bind fun _ => .store _
    | some value =>
      exact (h.evaluate base value).bind fun _ => Balanced.activeScope.bind fun _ => .store _
  | block body => exact h.runNested body
  | expression value => exact (h.evaluate base value).bind fun _ => .pure _
  | loop init test increment body => exact h.runLoop init
  | leave => exact Balanced.activeScope.bind fun _ => .store _
  | branch condition thenBody otherwise =>
    refine (h.evaluate base condition).bind fun value => ?_
    refine (Balanced.truthy value).bind fun passed => ?_
    cases passed with
    | true => exact h.runNested thenBody
    | false =>
      cases otherwise with
      | none => exact .pure _
      | some statement => exact h.execute false base statement
  | choose subject groups otherwise => exact h.runChoice subject groups otherwise

/-! ## Calls -/

/-- A body is run by statements, so a function of a script holds nothing in the end. -/
theorem callClosure (h : k.GivesBack) (closure : Closure) (arguments : List Value) :
    Balanced exact base (k.callClosure closure arguments) := by
  refine balanced_checkDepth.bind fun _ => (Balanced.read _).bind fun scope => ?_
  refine (Balanced.make _).bind fun id => ?_
  refine (Balanced.deeper fun _ => h.runBlock id closure.code.body).bind fun _ => ?_
  exact (Balanced.store _).bindPure _

/-- One turn of a method that visits elements. -/
theorem visitElement (h : k.GivesBack) {β : Type} (array : ArrayId) (f : Value)
    {visit : β → Value → Value → Eval (Turn β β)} (place : Nat) (found : β)
    (hvisit : ∀ found element result, Balanced false base (visit found element result)) :
    Balanced false base (do
      match ← Eval.read (elementNow array place) with
      | none => return .done found
      | some element =>
        let result ← k.call f [element, .number (Int64.ofNat place), .array array]
        Eval.keep element
        Eval.keep result
        match ← visit found element result with
        | .again found => return .again (place + 1, found)
        | .done found => return .done found : Eval (Turn (Nat × β) β)) := by
  refine (Balanced.read _).bind fun element => ?_
  cases element with
  | none => exact .pure _
  | some element =>
    refine (h.call false base f _ nofun).bind fun result => ?_
    refine (Balanced.keep element).bind fun _ => (Balanced.keep result).bind fun _ => ?_
    refine (hvisit found element result).bind fun turn => ?_
    cases turn with
    | again found => exact .pure _
    | done found => exact .pure _

theorem overElements (h : k.GivesBack) {β : Type} (array : ArrayId) (f : Value)
    {visit : β → Value → Value → Eval (Turn β β)} (start : β)
    (hvisit : ∀ found element result, Balanced false base (visit found element result)) :
    Balanced false base (k.overElements array f visit start) :=
  .iterate _ _ fun (place, found) => h.visitElement array f place found hvisit

/-- One turn of a method that folds elements. -/
theorem foldElement (h : k.GivesBack) (array : ArrayId) (f : Value) (place : Nat) (memo : Value) :
    Balanced false base (do
      match ← Eval.read (elementNow array place) with
      | none => return .done memo
      | some element =>
        let memo ← k.call f [memo, element, .number (Int64.ofNat place), .array array]
        Eval.keep memo
        return .again (place + 1, memo) : Eval (Turn (Nat × Value) Value)) := by
  refine (Balanced.read _).bind fun element => ?_
  cases element with
  | none => exact .pure _
  | some element =>
    refine (h.call false base f _ nofun).bind fun memo => ?_
    exact (Balanced.keep memo).bind fun _ => .pure _

theorem foldElements (h : k.GivesBack) (array : ArrayId) (f start : Value) :
    Balanced false base (k.foldElements array f start) :=
  .iterate _ _ fun (place, memo) => h.foldElement array f place memo

theorem balanced_arrayOfReversed (found : List Value) :
    Balanced exact base (arrayOfReversed found) :=
  (Balanced.make _).bindPure _

/-- A visit that looks whether the result is true. -/
theorem balanced_whether {β : Type} (result : Value) (a b : β) :
    Balanced exact base (do if ← Eval.truthy result then return a else return b) := by
  refine (Balanced.truthy result).bind fun passed => ?_
  cases passed with
  | true => exact .pure _
  | false => exact .pure _

/-- Without arguments there is no function to call, and the method fails before anything is done. -/
theorem withFunction {β : Type} {method : ArrayMethod} {arguments : List Value}
    {f : Value → Eval β} (hexact : exact = true → arguments = [])
    (hf : ∀ base callee, Balanced false base (f callee)) :
    Balanced exact base
      ((Eval.read fun _ => functionArgument method arguments) >>= f) := by
  cases exact with
  | false => exact (Balanced.read _).bind fun callee => hf base callee
  | true =>
    obtain rfl := hexact rfl
    exact fun m hm => hm

/-- A method is balanced, and exactly so if it is given nothing, as those that make the machine hold
    something want a function. -/
theorem callArrayMethod (h : k.GivesBack) (method : ArrayMethod) (array : ArrayId)
    (arguments : List Value) (hexact : exact = true → arguments = []) :
    Balanced exact base (k.callArrayMethod method array arguments) := by
  -- `filter` has two names
  have hselect : Balanced exact base (k.selectElements array arguments) :=
    withFunction hexact fun base callee =>
      (h.overElements array callee [] fun _ _ result => balanced_whether result _ _).bind
        fun found => balanced_arrayOfReversed found
  cases method with
  | push => exact (Balanced.store _).bindPure _
  | pop => exact (Balanced.store _).bindPure _
  | join =>
    have htexts : ∀ separator : String, Balanced exact base (do
        let texts ← Eval.read fun heap => do
          (← heap.array array).elements.toList.mapM heap.display
        return Value.string (separator.intercalate texts)) :=
      fun _ => (Balanced.read _).bindPure _
    cases arguments with
    | nil => exact htexts ","
    | cons first rest =>
      cases first with
      | string separator => exact htexts separator
      | _ => exact .fail _
  | each =>
    exact withFunction hexact fun base callee =>
      (h.overElements array callee () fun _ _ _ => .pure _).bind fun _ => .pure _
  | map =>
    exact withFunction hexact fun base callee =>
      (h.overElements array callee [] fun _ _ _ => .pure _).bind fun found =>
        balanced_arrayOfReversed found
  | filter => exact hselect
  | filterWhere => exact hselect
  | find =>
    have hfind : ∀ base callee, Balanced false base
        (k.overElements array callee (fun found element result => do
          if ← Eval.truthy result then return .done element else return .again found) .nil) :=
      fun base callee => h.overElements array callee Value.nil fun found element result =>
        balanced_whether result (Turn.done element) (Turn.again found)
    exact withFunction hexact hfind
  | reduce =>
    refine withFunction hexact fun base callee => ?_
    exact h.foldElements array callee _

theorem balanced_printValues (values : List Value) : Balanced exact base (printValues values) :=
  (Balanced.read _).bind fun _ => .write _

/-- Built-in functions are balanced. -/
theorem callBuiltin (h : k.GivesBack) (builtin : Builtin) (arguments : List Value)
    (hexact : exact = true → arguments = []) :
    Balanced exact base (k.callBuiltin builtin arguments) := by
  cases builtin with
  | print => exact (balanced_printValues arguments).bind fun _ => .pure _
  | println =>
    exact (balanced_printValues arguments).bind fun _ => (Balanced.write _).bind fun _ => .pure _
  | len => exact (Balanced.read _).bindPure _
  | arrayMethod stamp method array => exact h.callArrayMethod method array arguments hexact
  | stringMethod stamp method text => exact .pure _

/-- Whatever is called is balanced. -/
theorem callAny (h : k.GivesBack) (callee : Value) (arguments : List Value)
    (hexact : exact = true → arguments = []) :
    Balanced exact base (k.callAny callee arguments) := by
  cases callee with
  | function closure => exact h.callClosure closure arguments
  | builtin builtin => exact h.callBuiltin builtin arguments hexact
  | _ => exact .fail _

end GivesBack

/-! ## Whole runs -/

/-- Around a built-in function's calls. -/
theorem GivesBack.callingBack {k : Evaluator} (h : k.GivesBack) {w : Watch} (hw : w.GivesBack) :
    (k.callingBack w).GivesBack where
  pause := h.pause
  evaluate := h.evaluate
  execute := h.execute
  call exact base callee arguments hexact := hw.callBack (h.call exact base callee arguments hexact)

/-- Induction on fuel. -/
theorem givesBack_watched {w : Watch} (hw : w.GivesBack) (n : Nat) : (watched w n).GivesBack := by
  induction n with
  | zero =>
    exact ⟨hw.pause, fun _ _ => .throw _, fun _ _ _ => .throw _, fun _ _ _ _ _ => .throw _⟩
  | succ n ih =>
    refine ⟨hw.pause, fun base e => ?_, fun exact base s => ?_,
      fun exact base callee arguments hexact => ?_⟩
    · exact hw.evaluate (.kept (ih.express e))
    · exact hw.execute (.lettingGo fun _ => ih.perform s)
    · exact hw.call ((ih.callingBack hw).callAny callee arguments hexact)

/-- Evaluators give the control state back. -/
theorem givesBack_ofFuel (n : Nat) : (ofFuel n).GivesBack := by
  rw [← watched_idle]
  exact givesBack_watched (Watch.givesBack_idle _) n

/-- Flushing changes how a run ends, and not the machine that it reaches. -/
theorem reached_flushing (x : Eval Value) (m : Machine) :
    (flushing x).reached m = x.reached m := by
  unfold Eval.reached flushing
  cases x m with
  | ok a m' => cases hfails : m'.sink.failsFlush <;> simp [hfails]
  | error halt m' =>
    cases halt with
    | outOfFuel => rfl
    | failed e => cases hfails : m'.sink.failsFlush <;> simp [hfails]

theorem balanced_flushing {x : Eval Value} (hx : Balanced exact base x) :
    Balanced exact base (flushing x) := by
  intro m hm
  rw [reached_flushing]
  exact hx m hm

/-- A script is run by statements and a call without arguments. -/
theorem GivesBack.runScript {k : Evaluator} (h : k.GivesBack) (program : Program) :
    Balanced exact base (k.runScript program) := by
  have hstatements : Balanced exact base (program.statements.forM fun statement => do
      k.execute statement
      k.pause) :=
    .forM _ fun s => (h.execute exact base s).bind fun _ => h.pause exact base
  refine hstatements.bind fun _ => balanced_entryPoint.bind fun entry => ?_
  exact balanced_flushing (h.call exact base entry [] fun _ => rfl)

end Evaluator

end Tao
