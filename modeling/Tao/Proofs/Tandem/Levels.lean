/-
  Evaluators in tandem.

  If expressions, statements and calls go together below a level, they do so at the level: there is
  one lemma for each function of the evaluator.  What a built-in function prints is left to the
  tandem at hand, since that is where two runs with different sinks differ.
-/
import Tao.Run
import Tao.Proofs.Evaluator.Params
import Tao.Proofs.Tandem.Basic

namespace Tao

namespace Tandem

/-- Two evaluators that run in tandem. -/
structure Runs (T : Tandem) (k k' : Evaluator) : Prop where
  bound : T.Bounds k.bound k'.bound
  pause : ∀ c, T.Goes (some c) k.pause k'.pause
  evaluate : ∀ c e, T.Goes (some c) (k.evaluate e) (k'.evaluate e)
  execute : ∀ c s, T.Goes (some c) (k.execute s) (k'.execute s)
  call : ∀ callee arguments, T.Goes none (k.call callee arguments) (k'.call callee arguments)

variable {T : Tandem} {k k' : Evaluator} {here : Option ScopeId} {c : ScopeId}
  {test increment : Option Expression} {body : List Statement} {us vs : List Value}

/-! ## Places -/

namespace Goes

/-- Loading from a slot reads the heap; a method of an array takes a stamp in both runs. -/
theorem loadSlot (hT : T.Lawful) (target key : Value) :
    T.Goes here (loadSlot target key) (loadSlot target key) := by
  unfold Tao.loadSlot
  split
  · exact read hT fun heap => (heap.ordinary_object _).map _
  · exact read hT fun heap => (heap.ordinary_array _).bind fun cell => cell.ordinary_get _
  · exact (freshStamp hT).bind hT fun stamp =>
      read hT fun heap => heap.ordinary_memberOfArray stamp _ _
  · exact read hT fun _ => ordinary_charAt _ _
  · exact (freshStamp hT).bindPure hT _
  all_goals exact fail hT ⟨nofun, nofun⟩

/-- Storing to one is a store of the heap, or it fails. -/
theorem storeSlot (hT : T.Lawful) (target key value : Value) :
    T.Goes here (storeSlot target key value) (storeSlot target key value) := by
  unfold Tao.storeSlot
  split
  · exact store hT (Store.isSteady_putProp _ _ _)
  · exact store hT (Store.isSteady_setElement _ _ _)
  · split
    · exact fail hT ⟨nofun, nofun⟩
    · exact store hT (Store.isSteady_putArrayProp _ _ _)
  all_goals exact fail hT ⟨nofun, nofun⟩

/-- A name is looked up in the active scope, which is the same in both. -/
theorem load (hT : T.Lawful) (place : Place) : T.Goes (some c) place.load place.load := by
  cases place with
  | name text => exact bindActiveScope fun c => read hT fun heap => heap.ordinary_valueOf c text
  | slot target key => exact loadSlot hT target key

/-- A name is assigned in the active scope. -/
theorem storeAt (hT : T.Lawful) (value : Value) (place : Place) :
    T.Goes (some c) (place.store value) (place.store value) := by
  cases place with
  | name text => exact bindActiveScope fun c => store hT (Store.isSteady_assign c text value)
  | slot target key => exact storeSlot hT target key value

/-- New objects and arrays get the same handles. -/
theorem makeNew (hT : T.Lawful) (maker : Maker) (arguments : List Value) :
    T.Goes here (maker.make arguments) (maker.make arguments) := by
  cases maker with
  | object => exact (make hT fun heap => .addObject heap _).bindPure hT _
  | array =>
    refine (read hT fun _ => ordinary_arraySize arguments).bind hT fun size => ?_
    exact (make hT fun heap => .addArray heap _).bindPure hT _

/-- A function takes a stamp and, with a name, a binding. -/
theorem makeFunction (hT : T.Lawful) (code : FunctionCode) :
    T.Goes (some c) (Evaluator.makeFunction code) (Evaluator.makeFunction code) := by
  refine bindActiveScope fun c => (freshStamp hT).bind hT fun stamp => ?_
  cases code.name with
  | none => exact pure _
  | some name => exact (store hT (Store.isSteady_define c name _)).bind hT fun _ => pure _

/-- A step loads and stores. -/
theorem step (hT : T.Lawful) (operator : Kind) (before : Bool) (place : Place) :
    T.Goes (some c) (Evaluator.step operator before place)
      (Evaluator.step operator before place) := by
  refine (load hT place).bind hT fun value => ?_
  cases value with
  | number old => exact (storeAt hT _ place).bind hT fun _ => pure _
  | _ => exact fail hT ⟨nofun, nofun⟩

/-- Handing a returned value on. -/
theorem handOn (hT : T.Lawful) (outer : ScopeId) (returned : Option Value) :
    T.Goes here
      (match returned with
      | some value => Eval.store (Store.setReturned outer value)
      | none => Pure.pure ())
      (match returned with
      | some value => Eval.store (Store.setReturned outer value)
      | none => Pure.pure ()) := by
  cases returned with
  | some value => exact store hT (Store.isSteady_setReturned outer value)
  | none => exact pure _

end Goes

namespace Runs

/-! ## Expressions -/

theorem place (hT : T.Lawful) (h : T.Runs k k') (e : Expression) :
    T.Goes (some c) (k.place e) (k'.place e) := by
  cases e with
  | name text => exact .pure _
  | index target key =>
    exact (h.evaluate c target).bind hT fun _ => (h.evaluate c key).bind hT fun _ => .pure _
  | _ => exact .fail hT ⟨nofun, nofun⟩

theorem evaluateAll (hT : T.Lawful) (h : T.Runs k k') (es : List Expression) :
    T.Goes (some c) (es.mapM k.evaluate) (es.mapM k'.evaluate) :=
  .mapM hT es fun e => h.evaluate c e

/-- Operands are evaluated in turn, and the second may be left out. -/
theorem binary (hT : T.Lawful) (h : T.Runs k k') (operator : Kind) (left right : Expression) :
    T.Goes (some c) (k.express (.binary operator left right))
      (k'.express (.binary operator left right)) := by
  have hright : T.Goes (some c)
      (do return Value.boolean (← Eval.truthy (← k.evaluate right)))
      (do return Value.boolean (← Eval.truthy (← k'.evaluate right))) :=
    (h.evaluate c right).bind hT fun value => (Goes.truthy hT value).bindPure hT _
  refine (h.evaluate c left).bind hT fun value => ?_
  split
  · refine (Goes.truthy hT value).bind hT fun passed => ?_
    cases passed with
    | true => exact hright
    | false => exact .pure _
  · split
    · refine (Goes.truthy hT value).bind hT fun passed => ?_
      cases passed with
      | true => exact .pure _
      | false => exact hright
    · exact (h.evaluate c right).bind hT fun value' =>
        .read hT fun _ => ordinary_applyBinary operator value value'

/-- Entries of objects are set one after another. -/
theorem entries (hT : T.Lawful) (h : T.Runs k k') (entries : List Entry) :
    T.Goes (some c)
      (entries.foldlM (fun props (.mk key value) => do
        return Props.set key (← k.evaluate value) props) [])
      (entries.foldlM (fun props (.mk key value) => do
        return Props.set key (← k'.evaluate value) props) []) := by
  refine .foldlM hT entries [] fun props entry => ?_
  obtain ⟨key, value⟩ := entry
  exact (h.evaluate c value).bindPure hT _

/-- All expressions.  The cases are those of the syntax. -/
theorem express (hT : T.Lawful) (h : T.Runs k k') (e : Expression) :
    T.Goes (some c) (k.express e) (k'.express e) := by
  cases e with
  | literal value => exact .pure _
  | name text => exact .load hT (.name text)
  | unary operator operand =>
    refine (h.evaluate c operand).bind hT fun value => ?_
    split
    · exact (Goes.truthy hT value).bindPure hT _
    · exact .read hT fun _ => ordinary_applyUnary operator value
  | step operator before target =>
    exact (h.place hT target).bind hT fun place => .step hT operator before place
  | binary operator left right => exact h.binary hT operator left right
  | conditional condition thenValue elseValue =>
    refine (h.evaluate c condition).bind hT fun value => ?_
    refine (Goes.truthy hT value).bind hT fun passed => ?_
    cases passed with
    | true => exact h.evaluate c thenValue
    | false => exact h.evaluate c elseValue
  | construct maker arguments =>
    refine (h.evaluate c maker).bind hT fun maker => ?_
    refine (h.evaluateAll hT arguments).bind hT fun values => ?_
    cases maker with
    | maker maker => exact .makeNew hT maker values
    | _ => exact .fail hT ⟨nofun, nofun⟩
  | assign target value =>
    refine (h.evaluate c value).bind hT fun value => ?_
    refine (h.place hT target).bind hT fun place => ?_
    exact (Goes.storeAt hT value place).bind hT fun _ => .pure _
  | function code => exact .makeFunction hT code
  | index target key =>
    refine (h.evaluate c target).bind hT fun target => ?_
    exact (h.evaluate c key).bind hT fun key => .loadSlot hT target key
  | call callee arguments =>
    refine (h.evaluate c callee).bind hT fun callee => ?_
    exact (h.evaluateAll hT arguments).bind hT fun values => (h.call callee values).anywhere
  | object entries =>
    exact (h.entries hT entries).bind hT fun _ =>
      (Goes.make hT fun heap => .addObject heap _).bindPure hT _
  | array elements =>
    exact (h.evaluateAll hT elements).bind hT fun _ =>
      (Goes.make hT fun heap => .addArray heap _).bindPure hT _

/-! ## Statements -/

/-- Statements in sequence.  Induction on them. -/
theorem runAll (hT : T.Lawful) (h : T.Runs k k') (scope : ScopeId) (body : List Statement) :
    T.Goes (some c) (k.runAll scope body) (k'.runAll scope body) := by
  induction body with
  | nil => exact .pure _
  | cons statement rest ih =>
    refine (h.execute c statement).bind hT fun _ => ?_
    refine (Goes.read hT fun heap => (heap.ordinary_scope scope).map _).bind hT fun signal => ?_
    cases signal with
    | true => exact .pure _
    | false => exact (h.pause c).bind hT fun _ => ih

/-- A nested block has a scope of its own, whose signals are handed on. -/
theorem runNested (hT : T.Lawful) (h : T.Runs k k') (body : List Statement) :
    T.Goes (some c) (k.runNested body) (k'.runNested body) := by
  refine .bindActiveScope fun c => ?_
  refine .nested hT (fun child => h.runAll hT child body) fun child _ => ?_
  refine (Goes.store hT (Store.isSteady_lowerSignals child)).bind hT fun (broke, returned) => ?_
  cases broke with
  | true => exact .store hT (Store.isSteady_setBroke c)
  | false => exact .handOn hT c returned

/-- Each run lets go of what it held since its own mark. -/
theorem passes (hT : T.Lawful) (h : T.Runs k k') (hheld : T.HeldAlike us vs)
    (test : Option Expression) : T.Goes (some c) (k.passes us test) (k'.passes vs test) := by
  cases test with
  | none => exact .pure _
  | some test =>
    refine (h.evaluate c test).bind hT fun value => (Goes.truthy hT value).bind hT fun _ => ?_
    exact (Goes.setHeld hT hheld).bind hT fun _ => .pure _

/-- A turn runs in the scope of its loop. -/
theorem loopTurn (hT : T.Lawful) (h : T.Runs k k') (hheld : T.HeldAlike us vs) (outer : ScopeId) :
    T.Goes (some c) (k.loopTurn outer c us test increment body)
      (k'.loopTurn outer c vs test increment body) := by
  refine (h.passes hT hheld test).bind hT fun passed => ?_
  cases passed with
  | false => exact .pure _
  | true =>
    refine .nested hT (fun child => h.runAll hT child body) fun child _ => ?_
    refine (Goes.store hT (Store.isSteady_lowerSignals child)).bind hT fun (broke, returned) => ?_
    cases returned with
    | some value =>
      exact (Goes.store hT (Store.isSteady_setReturned outer value)).bind hT fun _ => .pure _
    | none =>
      cases broke with
      | true => exact .pure _
      | false =>
        cases increment with
        | none => exact (h.pause c).bind hT fun _ => .pure _
        | some increment =>
          refine (h.evaluate c increment).bind hT fun _ => ?_
          exact (Goes.setHeld hT hheld).bind hT fun _ => (h.pause c).bind hT fun _ => .pure _

/-- The loop has a scope of its own, in which its first clause and its turns run. -/
theorem runLoop (hT : T.Lawful) (h : T.Runs k k') (init : Option Statement) :
    T.Goes (some c) (k.runLoop init test increment body)
      (k'.runLoop init test increment body) := by
  have hturns : ∀ outer loop, T.Goes (some loop)
      (Eval.held >>= fun held =>
        iterate k.bound (fun _ => k.loopTurn outer loop held test increment body) ())
      (Eval.held >>= fun held =>
        iterate k'.bound (fun _ => k'.loopTurn outer loop held test increment body) ()) :=
    fun outer loop => .bindHeld hT fun us vs hheld =>
      .iterate hT h.bound () fun _ => h.loopTurn hT hheld outer
  refine .bindActiveScope fun outer => .onlyNested hT fun loop => ?_
  cases init with
  | none => exact hturns outer loop
  | some init => exact (h.execute loop init).bind hT fun _ => hturns outer loop

theorem labelMatches (hT : T.Lawful) (h : T.Runs k k') (subject : Value)
    (labels : List Expression) :
    T.Goes (some c) (k.labelMatches subject labels) (k'.labelMatches subject labels) := by
  induction labels with
  | nil => exact .pure _
  | cons label rest ih =>
    refine (h.evaluate c label).bind hT fun value => ?_
    split
    · exact .pure _
    · exact ih

theorem chosenGroup (hT : T.Lawful) (h : T.Runs k k') (subject : Value)
    (groups : List CaseGroup) :
    T.Goes (some c) (k.chosenGroup subject groups) (k'.chosenGroup subject groups) := by
  induction groups with
  | nil => exact .pure _
  | cons group rest ih =>
    obtain ⟨labels, body⟩ := group
    refine (h.labelMatches hT subject labels).bind hT fun found => ?_
    cases found with
    | true => exact .pure _
    | false => exact ih

/-- Both runs choose the same group. -/
theorem runChoice (hT : T.Lawful) (h : T.Runs k k') (subject : Expression)
    (groups : List CaseGroup) (otherwise : Option (List Statement)) :
    T.Goes (some c) (k.runChoice subject groups otherwise)
      (k'.runChoice subject groups otherwise) := by
  refine (h.evaluate c subject).bind hT fun subject => ?_
  refine (h.chosenGroup hT subject groups).bind hT fun chosen => ?_
  cases chosen.or otherwise with
  | none => exact .pure _
  | some body =>
    refine .bindActiveScope fun c => ?_
    refine .nested hT (fun child => h.runAll hT child body) fun child _ => ?_
    exact (Goes.store hT (Store.isSteady_lowerSignals child)).bind hT fun signals =>
      .handOn hT c signals.2

/-- All statements.  The cases are those of the syntax. -/
theorem perform (hT : T.Lawful) (h : T.Runs k k') (s : Statement) :
    T.Goes (some c) (k.perform s) (k'.perform s) := by
  cases s with
  | empty => exact .pure _
  | define name initializer =>
    have hdefine : ∀ value, T.Goes (some c) (Eval.activeScope >>= fun scope =>
        Eval.store (Store.define scope name value)) (Eval.activeScope >>= fun scope =>
        Eval.store (Store.define scope name value)) := fun value =>
      .bindActiveScope fun c => .store hT (Store.isSteady_define c name value)
    cases initializer with
    | none => exact (Goes.pure _).bind hT fun _ => hdefine _
    | some value => exact (h.evaluate c value).bind hT fun value => hdefine value
  | function code => exact (h.evaluate c _).bind hT fun _ => .pure _
  | giveBack value =>
    have hreturn : ∀ value, T.Goes (some c) (Eval.activeScope >>= fun scope =>
        Eval.store (Store.setReturned scope value)) (Eval.activeScope >>= fun scope =>
        Eval.store (Store.setReturned scope value)) := fun value =>
      .bindActiveScope fun c => .store hT (Store.isSteady_setReturned c value)
    cases value with
    | none => exact (Goes.pure _).bind hT fun _ => hreturn _
    | some value => exact (h.evaluate c value).bind hT fun value => hreturn value
  | block body => exact h.runNested hT body
  | expression value => exact (h.evaluate c value).bind hT fun _ => .pure _
  | loop init test increment body => exact h.runLoop hT init
  | leave => exact .bindActiveScope fun c => .store hT (Store.isSteady_setBroke c)
  | branch condition thenBody otherwise =>
    refine (h.evaluate c condition).bind hT fun value => ?_
    refine (Goes.truthy hT value).bind hT fun passed => ?_
    cases passed with
    | true => exact h.runNested hT thenBody
    | false =>
      cases otherwise with
      | none => exact .pure _
      | some statement => exact h.execute c statement
  | choose subject groups otherwise => exact h.runChoice hT subject groups otherwise

/-! ## Calls -/

/-- A scope can be made and entered one call deeper, or the depth be counted inside of it. -/
theorem deeper_within {α : Type} (scope : ScopeId) (x : Eval α) :
    Eval.deeper (Eval.within scope x) = Eval.within scope (Eval.deeper x) := by
  funext m
  rw [Eval.deeper_apply, Eval.within_apply, Eval.within_apply, Eval.deeper_apply]
  dsimp only
  cases x { m with depth := m.depth + 1, scope, frames := m.scope :: m.frames } <;> rfl

/-- The body of the function runs in a new scope inside of the one that the function was made in,
    whatever the active scopes are. -/
theorem callClosure (hT : T.Lawful) (h : T.Runs k k') (closure : Closure) (arguments : List Value)
    (hfits : ∀ m m' scope, T.Meets m m' → scope.parent = some closure.scope →
      T.Fits (m.heap.addScope scope).1 (m.heap.addScope scope).2) :
    T.Goes none (k.callClosure closure arguments) (k'.callClosure closure arguments) := by
  refine hT.checkDepth.bind hT fun _ => ?_
  cases hbind : Evaluator.bindParams (.inside (some closure.scope)) closure.code.params
      arguments with
  | error e =>
    have hordinary : e.IsOrdinary := Evaluator.ordinary_bindParams _ _ _ e hbind
    exact .fail hT hordinary
  | ok scope =>
    have hparent : scope.parent = some closure.scope := Evaluator.parent_bindParams hbind
    have hbody : T.Goes none
        (do
          let id ← Eval.make (·.addScope scope)
          let _ ← Eval.within id (Eval.deeper (k.runAll id closure.code.body))
          return (← Eval.store (Store.lowerSignals id)).2.getD Value.nil)
        (do
          let id ← Eval.make (·.addScope scope)
          let _ ← Eval.within id (Eval.deeper (k'.runAll id closure.code.body))
          return (← Eval.store (Store.lowerSignals id)).2.getD Value.nil) :=
      .inNewScope hT (fun m m' hm _ => hfits m m' scope hm hparent)
        (fun id => (h.runAll hT id closure.code.body).deeper hT)
        fun id _ => (Goes.store hT (Store.isSteady_lowerSignals id)).bindPure hT _
    simp only [← deeper_within] at hbody
    exact hbody

/-- A method that visits elements. -/
theorem overElements (hT : T.Lawful) (h : T.Runs k k') {β : Type} (array : ArrayId) (f : Value)
    {visit : β → Value → Value → Eval (Turn β β)} (start : β)
    (hvisit : ∀ found element result,
      T.Goes none (visit found element result) (visit found element result)) :
    T.Goes none (k.overElements array f visit start) (k'.overElements array f visit start) := by
  refine .iterate hT h.bound _ fun (place, found) => ?_
  refine (Goes.read hT fun heap => Evaluator.ordinary_elementNow array place heap).bind hT
    fun element => ?_
  cases element with
  | none => exact .pure _
  | some element =>
    refine (h.call f _).bind hT fun result => ?_
    refine (Goes.keep hT element).bind hT fun _ => (Goes.keep hT result).bind hT fun _ => ?_
    refine (hvisit found element result).bind hT fun turn => ?_
    cases turn with
    | again found => exact .pure _
    | done found => exact .pure _

/-- Folding goes on for as long as there are elements. -/
theorem foldElements (hT : T.Lawful) (h : T.Runs k k') (array : ArrayId) (f start : Value) :
    T.Goes none (k.foldElements array f start) (k'.foldElements array f start) := by
  refine .iterate hT h.bound _ fun (place, memo) => ?_
  refine (Goes.read hT fun heap => Evaluator.ordinary_elementNow array place heap).bind hT
    fun element => ?_
  cases element with
  | none => exact .pure _
  | some element =>
    refine (h.call f _).bind hT fun memo => ?_
    exact (Goes.keep hT memo).bind hT fun _ => .pure _

/-- A visit that looks whether the result is true. -/
theorem goes_whether (hT : T.Lawful) {β : Type} (result : Value) (a b : β) :
    T.Goes here (do if ← Eval.truthy result then return a else return b)
      (do if ← Eval.truthy result then return a else return b) := by
  refine (Goes.truthy hT result).bind hT fun passed => ?_
  cases passed with
  | true => exact .pure _
  | false => exact .pure _

/-- What was found is put in a new array. -/
theorem goes_arrayOfReversed (hT : T.Lawful) (found : List Value) :
    T.Goes here (Evaluator.arrayOfReversed found) (Evaluator.arrayOfReversed found) :=
  (Goes.make hT fun heap => .addArray heap _).bindPure hT _

/-- All methods: most change the array, the others call back. -/
theorem callArrayMethod (hT : T.Lawful) (h : T.Runs k k') (method : ArrayMethod) (array : ArrayId)
    (arguments : List Value) :
    T.Goes none (k.callArrayMethod method array arguments)
      (k'.callArrayMethod method array arguments) := by
  have hfunction : ∀ method, T.Goes none
      (Eval.read fun _ => Evaluator.functionArgument method arguments)
      (Eval.read fun _ => Evaluator.functionArgument method arguments) := fun method =>
    .read hT fun _ => Evaluator.ordinary_functionArgument method arguments
  -- `filter` has two names
  have hselect : T.Goes none (k.selectElements array arguments)
      (k'.selectElements array arguments) :=
    (hfunction .filter).bind hT fun callee =>
      (h.overElements hT array callee [] fun _ _ result => goes_whether hT result _ _).bind hT
        fun found => goes_arrayOfReversed hT found
  cases method with
  | push => exact (Goes.store hT (Store.isSteady_pushElements array arguments)).bindPure hT _
  | pop => exact (Goes.store hT (Store.isSteady_popElement array)).bindPure hT _
  | join =>
    have htexts : ∀ separator : String, T.Goes none
        (do
          let texts ← Eval.read fun heap => do
            (← heap.array array).elements.toList.mapM heap.display
          return Value.string (separator.intercalate texts))
        (do
          let texts ← Eval.read fun heap => do
            (← heap.array array).elements.toList.mapM heap.display
          return Value.string (separator.intercalate texts)) := fun separator =>
      (Goes.read hT fun heap => (heap.ordinary_array array).bind fun cell =>
        .mapM _ heap.ordinary_display).bindPure hT _
    cases arguments with
    | nil => exact htexts ","
    | cons first rest =>
      cases first with
      | string separator => exact htexts separator
      | _ => exact .fail hT ⟨nofun, nofun⟩
  | each =>
    refine (hfunction .each).bind hT fun callee => ?_
    exact (h.overElements hT array callee () fun _ _ _ => .pure _).bind hT fun _ => .pure _
  | map =>
    refine (hfunction .map).bind hT fun callee => ?_
    exact (h.overElements hT array callee [] fun _ _ _ => .pure _).bind hT fun found =>
      goes_arrayOfReversed hT found
  | filter => exact hselect
  | filterWhere => exact hselect
  | find =>
    exact (hfunction .find).bind hT fun callee =>
      h.overElements hT array callee Value.nil fun found element result =>
        goes_whether hT result (Turn.done element) (Turn.again found)
  | reduce =>
    refine (hfunction .reduce).bind hT fun callee => ?_
    exact h.foldElements hT array callee _

end Runs

end Tandem

end Tao
