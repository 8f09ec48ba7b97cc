/-
  Evaluators that do the same at a depth.

  Two evaluators AGREE at a depth of calls if expressions, statements and calls do the same in both
  on every machine on which so many calls are under way.  Then so does all that is made of them:
  there is one lemma for each function of the evaluator that passes it on.  A part may be done
  before another because it gives the depth back.

  Only the body of a function runs one call deeper, so this is where two depths meet
  (`sameOn_callClosure`).
-/
import Tao.Proofs.Control.Levels
import Tao.Proofs.Lockstep.Expression

namespace Tao

open Eval (Balanced SameOn Stays)

/-- So many calls are under way on the machine, and these are its limits. -/
def Machine.At (depth : Nat) (config : Config) (m : Machine) : Prop :=
  m.depth = depth ∧ m.config = config

open Machine (At)

variable {α β : Type} {depth : Nat} {config : Config} {x y : Eval α}

namespace Eval

/-- The values held are no matter for the depth, so the base may be one that holds none. -/
theorem Balanced.staysFrom (hx : ∀ base, base.held = [] → Balanced false base x) :
    Stays (At depth config) x := by
  intro m hm
  have hback : Machine.Back false { m with held := [] } m := ⟨rfl, List.nil_suffix, nofun⟩
  have hafter := hx { m with held := [] } rfl m hback
  have hconfig := congrArg Control.config hafter.control
  exact ⟨hafter.depth_eq.trans hm.1, hconfig.trans hm.2⟩

/-- Hence what gives everything back stays at the depth. -/
theorem Balanced.stays (hx : ∀ base, Balanced false base x) : Stays (At depth config) x :=
  staysFrom fun base _ => hx base

namespace SameOn

theorem mapM {ι : Type} {g g' : ι → Eval β} (items : List ι)
    (hsame : ∀ item, SameOn (At depth config) (g item) (g' item))
    (hg : ∀ item base, Balanced false base (g item)) :
    SameOn (At depth config) (items.mapM g) (items.mapM g') := by
  induction items with
  | nil => exact refl
  | cons item rest ih =>
    rw [List.mapM_cons, List.mapM_cons]
    refine (hsame item).bind (Balanced.stays (hg item)) fun _ => ?_
    refine ih.bind (Balanced.stays fun _ => .mapM rest fun item => hg item _) fun _ => refl

/-- Folding, if each step is the same and gives the depth back. -/
theorem foldlM {ι σ : Type} {g g' : σ → ι → Eval σ} (items : List ι) (start : σ)
    (hsame : ∀ s item, SameOn (At depth config) (g s item) (g' s item))
    (hg : ∀ s item base, Balanced false base (g s item)) :
    SameOn (At depth config) (items.foldlM g start) (items.foldlM g' start) := by
  induction items generalizing start with
  | nil => exact refl
  | cons item rest ih =>
    rw [List.foldlM_cons, List.foldlM_cons]
    exact (hsame start item).bind (Balanced.stays (hg start item)) fun next => ih next

theorem forM {ι : Type} {g g' : ι → Eval PUnit} (items : List ι)
    (hsame : ∀ item, SameOn (At depth config) (g item) (g' item))
    (hg : ∀ item base, Balanced false base (g item)) :
    SameOn (At depth config) (items.forM g) (items.forM g') := by
  induction items with
  | nil => exact refl
  | cons item rest ih => exact (hsame item).bind (Balanced.stays (hg item)) fun _ => ih

theorem kept {x y : Eval Value} (h : SameOn (At depth config) x y) :
    SameOn (At depth config) (Eval.kept x) (Eval.kept y) := by
  intro m hm
  unfold Eval.kept
  show EStateM.bind x _ m = EStateM.bind y _ m
  unfold EStateM.bind
  rw [h m hm]

theorem lettingGo (h : SameOn (At depth config) x y) :
    SameOn (At depth config) (Eval.lettingGo x) (Eval.lettingGo y) := by
  intro m hm
  unfold Eval.lettingGo
  dsimp only
  rw [h m hm]

theorem within (h : SameOn (At depth config) x y) (scope : ScopeId) :
    SameOn (At depth config) (Eval.within scope x) (Eval.within scope y) := by
  intro m hm
  unfold Eval.within
  dsimp only
  rw [h { m with scope, frames := m.scope :: m.frames } hm]

/-- What is the same one call deeper is the same as a body of a call. -/
theorem deeper (h : SameOn (At (depth + 1) config) x y) :
    SameOn (At depth config) (Eval.deeper x) (Eval.deeper y) := by
  intro m hm
  have hdeeper : At (depth + 1) config { m with depth := m.depth + 1 } :=
    ⟨congrArg (· + 1) hm.1, hm.2⟩
  unfold Eval.deeper
  dsimp only
  rw [h _ hdeeper]

end SameOn

end Eval

namespace Evaluator

/-- The two do the same on machines with so many calls under way. -/
structure Agrees (depth : Nat) (config : Config) (k k' : Evaluator) : Prop where
  bound : k.bound = k'.bound
  pause : k.pause = k'.pause
  evaluate : ∀ e, SameOn (At depth config) (k.evaluate e) (k'.evaluate e)
  execute : ∀ s, SameOn (At depth config) (k.execute s) (k'.execute s)
  call : ∀ callee arguments,
    SameOn (At depth config) (k.call callee arguments) (k'.call callee arguments)

variable {k k' : Evaluator} {test increment : Option Expression} {body : List Statement}
  {held : List Value}

namespace GivesBack

/-- All parts of an evaluator that gives control back stay at the depth. -/
theorem staysEvaluate (hk : k.GivesBack) (e : Expression) :
    Stays (At depth config) (k.evaluate e) :=
  Balanced.stays fun base => hk.evaluate base e

theorem staysExecute (hk : k.GivesBack) (s : Statement) : Stays (At depth config) (k.execute s) :=
  Balanced.stays fun base => hk.execute false base s

theorem staysBlock (hk : k.GivesBack) (scope : ScopeId) (body : List Statement) :
    Stays (At depth config) (k.runBlock scope body) :=
  Balanced.stays fun _ => hk.runBlock scope body

theorem staysCall (hk : k.GivesBack) (callee : Value) (arguments : List Value) :
    Stays (At depth config) (k.call callee arguments) :=
  Balanced.stays fun base => hk.call false base callee arguments nofun

end GivesBack

/-- The steps that only touch the heap or the active scope stay at the depth. -/
theorem stays_read (f : Heap → Except RuntimeError α) : Stays (At depth config) (Eval.read f) :=
  Balanced.stays fun _ => .read f

theorem stays_store (f : Store α) : Stays (At depth config) (Eval.store f) :=
  Balanced.stays fun _ => .store f

theorem stays_newScope (parent : ScopeId) : Stays (At depth config) (Eval.newScope parent) :=
  Balanced.stays fun _ => .newScope parent

theorem stays_activeScope : Stays (At depth config) Eval.activeScope :=
  Balanced.stays fun _ => .activeScope

namespace Agrees

/-! ## Expressions -/

theorem place (h : Agrees depth config k k') (hk : k.GivesBack) (e : Expression) :
    SameOn (At depth config) (k.place e) (k'.place e) := by
  cases e with
  | index target key =>
    refine (h.evaluate target).bind (hk.staysEvaluate target) fun _ => ?_
    exact (h.evaluate key).bind (hk.staysEvaluate key) fun _ => .refl
  | _ => exact .refl

theorem evaluateAll (h : Agrees depth config k k') (hk : k.GivesBack) (es : List Expression) :
    SameOn (At depth config) (es.mapM k.evaluate) (es.mapM k'.evaluate) :=
  .mapM es h.evaluate fun e base => hk.evaluate base e

/-- Operands are evaluated in turn, and the second may be left out. -/
theorem binary (h : Agrees depth config k k') (hk : k.GivesBack) (operator : Kind)
    (left right : Expression) :
    SameOn (At depth config) (k.express (.binary operator left right))
      (k'.express (.binary operator left right)) := by
  have hright : SameOn (At depth config)
      (do return Value.boolean (← Eval.truthy (← k.evaluate right)))
      (do return Value.boolean (← Eval.truthy (← k'.evaluate right))) :=
    (h.evaluate right).bind (hk.staysEvaluate right) fun _ => .refl
  unfold express
  refine (h.evaluate left).bind (hk.staysEvaluate left) fun value => ?_
  split
  · refine SameOn.refl.bind (stays_read _) fun passed => ?_
    cases passed with
    | true => exact hright
    | false => exact .refl
  · split
    · refine SameOn.refl.bind (stays_read _) fun passed => ?_
      cases passed with
      | true => exact .refl
      | false => exact hright
    · exact (h.evaluate right).bind (hk.staysEvaluate right) fun _ => .refl

/-- All expressions.  The cases are those of the syntax. -/
theorem express (h : Agrees depth config k k') (hk : k.GivesBack) (e : Expression) :
    SameOn (At depth config) (k.express e) (k'.express e) := by
  cases e with
  | literal value => exact .refl
  | name text => exact .refl
  | function code => exact .refl
  | unary operator operand =>
    exact (h.evaluate operand).bind (hk.staysEvaluate operand) fun _ => .refl
  | step operator before target =>
    exact (h.place hk target).bind (Balanced.stays fun _ => hk.place target) fun _ => .refl
  | binary operator left right => exact h.binary hk operator left right
  | conditional condition thenValue elseValue =>
    refine (h.evaluate condition).bind (hk.staysEvaluate condition) fun value => ?_
    refine SameOn.refl.bind (stays_read _) fun passed => ?_
    cases passed with
    | true => exact h.evaluate thenValue
    | false => exact h.evaluate elseValue
  | construct maker arguments =>
    refine (h.evaluate maker).bind (hk.staysEvaluate maker) fun maker => ?_
    exact (h.evaluateAll hk arguments).bind (Balanced.stays fun _ => hk.evaluateAll arguments)
      fun _ => .refl
  | assign target value =>
    refine (h.evaluate value).bind (hk.staysEvaluate value) fun value => ?_
    exact (h.place hk target).bind (Balanced.stays fun _ => hk.place target) fun _ => .refl
  | index target key =>
    refine (h.evaluate target).bind (hk.staysEvaluate target) fun target => ?_
    exact (h.evaluate key).bind (hk.staysEvaluate key) fun _ => .refl
  | call callee arguments =>
    refine (h.evaluate callee).bind (hk.staysEvaluate callee) fun callee => ?_
    exact (h.evaluateAll hk arguments).bind (Balanced.stays fun _ => hk.evaluateAll arguments)
      fun values => h.call callee values
  | object entries =>
    refine (SameOn.foldlM entries [] (fun props entry => ?_) fun props entry base => ?_).bind
      (Balanced.stays fun base => .foldlM entries [] fun props entry => ?_) fun _ => .refl
    all_goals obtain ⟨key, value⟩ := entry
    · exact (h.evaluate value).bind (hk.staysEvaluate value) fun _ => .refl
    all_goals exact (hk.evaluate base value).bindPure _
  | array elements =>
    exact (h.evaluateAll hk elements).bind (Balanced.stays fun _ => hk.evaluateAll elements)
      fun _ => .refl

/-! ## Statements -/

/-- Statements in sequence.  Induction on them. -/
theorem runAll (h : Agrees depth config k k') (hk : k.GivesBack) (scope : ScopeId)
    (body : List Statement) :
    SameOn (At depth config) (k.runAll scope body) (k'.runAll scope body) := by
  induction body with
  | nil => exact .refl
  | cons s rest ih =>
    unfold Evaluator.runAll
    rw [h.pause]
    refine (h.execute s).bind (hk.staysExecute s) fun _ => ?_
    refine SameOn.refl.bind (stays_read _) fun signal => ?_
    cases signal with
    | true => exact .refl
    | false =>
      exact SameOn.refl.bind (Balanced.stays fun base => h.pause ▸ hk.pause false base) fun _ => ih

/-- A block is a sequence within a scope. -/
theorem runBlock (h : Agrees depth config k k') (hk : k.GivesBack) (scope : ScopeId)
    (body : List Statement) :
    SameOn (At depth config) (k.runBlock scope body) (k'.runBlock scope body) :=
  (h.runAll hk scope body).within scope

/-- A nested block has a scope of its own. -/
theorem runNested (h : Agrees depth config k k') (hk : k.GivesBack) (body : List Statement) :
    SameOn (At depth config) (k.runNested body) (k'.runNested body) := by
  refine SameOn.refl.bind stays_activeScope fun outer => ?_
  refine SameOn.refl.bind (stays_newScope outer) fun child => ?_
  exact (h.runBlock hk child body).bind (hk.staysBlock child body) fun _ => .refl

/-- The test of a loop. -/
theorem passes (h : Agrees depth config k k') (hk : k.GivesBack) (test : Option Expression) :
    SameOn (At depth config) (k.passes held test) (k'.passes held test) := by
  cases test with
  | none => exact .refl
  | some test => exact (h.evaluate test).bind (hk.staysEvaluate test) fun _ => .refl

/-- One turn of a loop: the test, the body in a new scope, the increment. -/
theorem loopTurn (h : Agrees depth config k k') (hk : k.GivesBack) (outer loop : ScopeId) :
    SameOn (At depth config) (k.loopTurn outer loop held test increment body)
      (k'.loopTurn outer loop held test increment body) := by
  have hpasses : Stays (At depth config) (k.passes held test) :=
    Balanced.staysFrom fun base hbase => hk.passes (hbase ▸ List.nil_suffix) test
  refine (h.passes hk test).bind hpasses fun passed => ?_
  cases passed with
  | false => exact .refl
  | true =>
    refine SameOn.refl.bind (stays_newScope loop) fun scope => ?_
    refine (h.runBlock hk scope body).bind (hk.staysBlock scope body) fun _ => ?_
    refine SameOn.refl.bind (stays_store _) fun signals => ?_
    obtain ⟨broke, returned⟩ := signals
    cases returned with
    | some value => exact .refl
    | none =>
      cases broke with
      | true => exact .refl
      | false =>
        rw [h.pause]
        cases increment with
        | none => exact .refl
        | some increment =>
          exact (h.evaluate increment).bind (hk.staysEvaluate increment) fun _ => .refl

/-- A whole loop, turn by turn. -/
theorem runLoop (h : Agrees depth config k k') (hk : k.GivesBack) (init : Option Statement) :
    SameOn (At depth config) (k.runLoop init test increment body)
      (k'.runLoop init test increment body) := by
  have hturns : ∀ outer loop, SameOn (At depth config)
      (Eval.held >>= fun held =>
        iterate k.bound (fun _ => k.loopTurn outer loop held test increment body) ())
      (Eval.held >>= fun held =>
        iterate k'.bound (fun _ => k'.loopTurn outer loop held test increment body) ()) := by
    intro outer loop
    rw [← h.bound]
    refine SameOn.refl.bind (fun _ hm => hm) fun held => ?_
    exact .iterate _ _ (fun _ => h.loopTurn hk outer loop) fun _ =>
      Balanced.staysFrom fun base hbase => hk.loopTurn (hbase ▸ List.nil_suffix) outer loop
  refine SameOn.refl.bind stays_activeScope fun outer => ?_
  refine SameOn.refl.bind (stays_newScope outer) fun loop => ?_
  refine SameOn.within ?_ loop
  cases init with
  | none => exact hturns outer loop
  | some init => exact (h.execute init).bind (hk.staysExecute init) fun _ => hturns outer loop

theorem labelMatches (h : Agrees depth config k k') (hk : k.GivesBack) (subject : Value)
    (labels : List Expression) :
    SameOn (At depth config) (k.labelMatches subject labels) (k'.labelMatches subject labels) := by
  induction labels with
  | nil => exact .refl
  | cons label rest ih =>
    unfold Evaluator.labelMatches
    refine (h.evaluate label).bind (hk.staysEvaluate label) fun value => ?_
    split
    · exact .refl
    · exact ih

theorem chosenGroup (h : Agrees depth config k k') (hk : k.GivesBack) (subject : Value)
    (groups : List CaseGroup) :
    SameOn (At depth config) (k.chosenGroup subject groups) (k'.chosenGroup subject groups) := by
  induction groups with
  | nil => exact .refl
  | cons group rest ih =>
    obtain ⟨labels, body⟩ := group
    refine (h.labelMatches hk subject labels).bind
      (Balanced.stays fun _ => hk.labelMatches subject labels) fun found => ?_
    cases found with
    | true => exact .refl
    | false => exact ih

/-- A choice runs the same group. -/
theorem runChoice (h : Agrees depth config k k') (hk : k.GivesBack) (subject : Expression)
    (groups : List CaseGroup) (otherwise : Option (List Statement)) :
    SameOn (At depth config) (k.runChoice subject groups otherwise)
      (k'.runChoice subject groups otherwise) := by
  refine (h.evaluate subject).bind (hk.staysEvaluate subject) fun subject => ?_
  refine (h.chosenGroup hk subject groups).bind
    (Balanced.stays fun _ => hk.chosenGroup subject groups) fun chosen => ?_
  cases chosen.or otherwise with
  | none => exact .refl
  | some body =>
    refine SameOn.refl.bind stays_activeScope fun outer => ?_
    refine SameOn.refl.bind (stays_newScope outer) fun child => ?_
    exact (h.runBlock hk child body).bind (hk.staysBlock child body) fun _ => .refl

/-- All statements.  The cases are those of the syntax. -/
theorem perform (h : Agrees depth config k k') (hk : k.GivesBack) (s : Statement) :
    SameOn (At depth config) (k.perform s) (k'.perform s) := by
  cases s with
  | empty => exact .refl
  | define name initializer =>
    cases initializer with
    | none => exact .refl
    | some value => exact (h.evaluate value).bind (hk.staysEvaluate value) fun _ => .refl
  | function code => exact (h.evaluate _).bind (hk.staysEvaluate _) fun _ => .refl
  | giveBack value =>
    cases value with
    | none => exact .refl
    | some value => exact (h.evaluate value).bind (hk.staysEvaluate value) fun _ => .refl
  | block body => exact h.runNested hk body
  | expression value => exact (h.evaluate value).bind (hk.staysEvaluate value) fun _ => .refl
  | loop init test increment body => exact h.runLoop hk init
  | leave => exact .refl
  | branch condition thenBody otherwise =>
    refine (h.evaluate condition).bind (hk.staysEvaluate condition) fun value => ?_
    refine SameOn.refl.bind (stays_read _) fun passed => ?_
    cases passed with
    | true => exact h.runNested hk thenBody
    | false =>
      cases otherwise with
      | none => exact .refl
      | some statement => exact h.execute statement
  | choose subject groups otherwise => exact h.runChoice hk subject groups otherwise

/-- The sink is flushed after the same end. -/
theorem flushing_congr {x y : Eval Value} {m : Machine} (h : x m = y m) :
    flushing x m = flushing y m := by
  unfold flushing
  rw [h]

/-- A script is run by statements and a call. -/
theorem runScript (h : Agrees depth config k k') (hk : k.GivesBack) (program : Program) :
    SameOn (At depth config) (k.runScript program) (k'.runScript program) := by
  unfold Evaluator.runScript
  rw [← h.pause]
  have hbalanced : ∀ (s : Statement) base, Balanced false base (do k.execute s; k.pause) :=
    fun s base => (hk.execute false base s).bind fun _ => hk.pause false base
  refine (SameOn.forM program.statements (fun s => ?_) hbalanced).bind
    (Balanced.stays fun base => .forM program.statements fun s => hbalanced s base) fun _ => ?_
  · exact (h.execute s).bind (hk.staysExecute s) fun _ => .refl
  · refine SameOn.refl.bind (Balanced.stays fun _ => balanced_entryPoint) fun entry => ?_
    exact fun m hm => flushing_congr (h.call entry [] m hm)

end Agrees

/-! ## Calls -/

/-- The body of a function runs one call deeper, unless it must not run. -/
theorem sameOn_callClosure (hk : k.GivesBack)
    (h : depth < config.maxCallDepth → Agrees (depth + 1) config k k') (closure : Closure)
    (arguments : List Value) :
    SameOn (At depth config) (k.callClosure closure arguments)
      (k'.callClosure closure arguments) := by
  unfold callClosure
  by_cases hdeep : depth < config.maxCallDepth
  · refine SameOn.refl.bind (Balanced.stays fun _ => balanced_checkDepth) fun _ => ?_
    refine SameOn.refl.bind (stays_read _) fun scope => ?_
    refine SameOn.refl.bind (Balanced.stays fun _ => .make _) fun id => ?_
    have hblock := ((h hdeep).runBlock hk id closure.code.body).deeper
    exact hblock.bind (Balanced.stays fun _ => .deeper fun _ => hk.runBlock id closure.code.body)
      fun _ => .refl
  · intro m hm
    have hfails : checkDepth m = .error (.failed (.callsTooDeep m.config.maxCallDepth)) m := by
      unfold checkDepth
      rw [if_pos]
      rw [hm.1, hm.2]
      exact Nat.le_of_not_lt hdeep
    show EStateM.bind checkDepth _ m = EStateM.bind checkDepth _ m
    unfold EStateM.bind
    rw [hfails]

/-- Two evaluators that do the same when a method calls back. -/
def SameCalls (depth : Nat) (config : Config) (k k' : Evaluator) : Prop :=
  ∀ callee arguments, SameOn (At depth config) (k.call callee arguments) (k'.call callee arguments)

section

variable (hk : k.GivesBack) (hbound : k.bound = k'.bound) (hcall : SameCalls depth config k k')

include hk hbound hcall

/-- Going over the elements of an array calls the function that is given with each. -/
theorem sameOn_overElements (array : ArrayId) (f : Value)
    {visit : β → Value → Value → Eval (Turn β β)} (start : β)
    (hvisit : ∀ base found element result, Balanced false base (visit found element result)) :
    SameOn (At depth config) (k.overElements array f visit start)
      (k'.overElements array f visit start) := by
  unfold overElements
  rw [← hbound]
  refine .iterate _ _ (fun (place, found) => ?_) fun (place, found) => ?_
  · refine SameOn.refl.bind (stays_read _) fun element => ?_
    cases element with
    | none => exact .refl
    | some element => exact (hcall f _).bind (hk.staysCall f _) fun _ => .refl
  · exact Balanced.stays fun base => hk.visitElement array f place found (hvisit base)

/-- So does folding them. -/
theorem sameOn_foldElements (array : ArrayId) (f start : Value) :
    SameOn (At depth config) (k.foldElements array f start) (k'.foldElements array f start) := by
  unfold foldElements
  rw [← hbound]
  refine .iterate _ _ (fun (place, memo) => ?_) fun (place, memo) => ?_
  · refine SameOn.refl.bind (stays_read _) fun element => ?_
    cases element with
    | none => exact .refl
    | some element => exact (hcall f _).bind (hk.staysCall f _) fun _ => .refl
  · exact Balanced.stays fun base => hk.foldElement array f place memo

/-- All methods of arrays: those that call nothing back are the same anyway. -/
theorem sameOn_callArrayMethod (method : ArrayMethod) (array : ArrayId)
    (arguments : List Value) :
    SameOn (At depth config) (k.callArrayMethod method array arguments)
      (k'.callArrayMethod method array arguments) := by
  -- the elements are visited alike, and afterwards the calls under way are as many as before
  have hvisit : ∀ {β : Type} (f : Value) {visit : β → Value → Value → Eval (Turn β β)} (start : β),
      (∀ base found element result, Balanced false base (visit found element result)) →
      SameOn (At depth config) (k.overElements array f visit start)
        (k'.overElements array f visit start) ∧
      Stays (At depth config) (k.overElements array f visit start) := fun f _ start hvisit =>
    ⟨sameOn_overElements hk hbound hcall array f start hvisit,
      Balanced.stays fun base => hk.overElements array f start (hvisit base)⟩
  have hselect : SameOn (At depth config) (k.selectElements array arguments)
      (k'.selectElements array arguments) := by
    refine SameOn.refl.bind (stays_read _) fun f => ?_
    have hfound := hvisit f ([] : List Value) fun base found element result =>
      GivesBack.balanced_whether result (Turn.again (element :: found)) (Turn.again found)
    exact hfound.1.bind hfound.2 fun _ => .refl
  cases method with
  | push => exact .refl
  | pop => exact .refl
  | join => exact .refl
  | each =>
    refine SameOn.refl.bind (stays_read _) fun f => ?_
    have hfound := hvisit f () fun base found element result => .pure (Turn.again ())
    exact hfound.1.bind hfound.2 fun _ => .refl
  | map =>
    refine SameOn.refl.bind (stays_read _) fun f => ?_
    have hfound := hvisit f ([] : List Value) fun base found element result =>
      .pure (Turn.again (result :: found))
    exact hfound.1.bind hfound.2 fun _ => .refl
  | filter => exact hselect
  | filterWhere => exact hselect
  | find =>
    refine SameOn.refl.bind (stays_read _) fun f => ?_
    exact (hvisit f Value.nil fun base found element result =>
      GivesBack.balanced_whether result (Turn.done element) (Turn.again found)).1
  | reduce =>
    refine SameOn.refl.bind (stays_read _) fun f => ?_
    exact sameOn_foldElements hk hbound hcall array f _

end

/-- Only the methods of arrays that call back need the evaluator. -/
theorem sameOn_callBuiltin (hk : k.GivesBack) (hbound : k.bound = k'.bound) (builtin : Builtin)
    (arguments : List Value)
    (hcall : (Value.builtin builtin).callsBack = true → SameCalls depth config k k') :
    SameOn (At depth config) (k.callBuiltin builtin arguments)
      (k'.callBuiltin builtin arguments) := by
  cases builtin with
  | arrayMethod stamp method array =>
    cases hmethod : method.callsBack with
    | true => exact sameOn_callArrayMethod hk hbound (hcall hmethod) method array arguments
    | false => cases method <;> first | exact .refl | cases hmethod
  | _ => exact .refl

end Evaluator

end Tao
