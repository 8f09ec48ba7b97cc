/-
  Statements in lockstep.

  Two evaluators perform in lockstep (`Performs`) if they pause and execute every statement in
  lockstep, and leave held what was held before.  Then so does the next level above them, provided
  that signals may be raised: one lemma for each construct, put together in `Performs.perform`.

  The scope that a block runs in is the active one while it runs, and the scopes around it are among
  those to come back to, so all of them stay paired until their signals are looked at.
-/
import Tao.Evaluator.Statement
import Tao.Proofs.Lockstep.Expression

namespace Tao

namespace Regime

/-- Two evaluators that execute in lockstep. -/
structure Performs (R : Regime) (k k' : Evaluator) : Prop where
  pause : ∀ {j}, R.Sound j → R.Steps true j k.pause k'.pause fun _ _ _ => True
  execute : ∀ {j statement}, R.Sound j → statement.Everywhere R.shape →
    R.Steps true j (k.execute statement) (k'.execute statement) fun _ _ _ => True

variable {R : Regime} {exact : Bool} {base j : Joint} {u v : Value} {k k' : Evaluator}
  {a b outer outer' : ScopeId} {held held' : List Value}

/-! ## Blocks -/

/-- Signals are up in both of two paired scopes, or in neither. -/
theorem Steps.signalled (hR : R.Lawful) (hs : R.Sound j) (hab : j.pairing.scope a b) :
    R.Steps exact j (Eval.read fun heap => do return (← heap.scope a).signalled)
      (Eval.read fun heap => do return (← heap.scope b).signalled) fun now x y => now = j ∧ x = y :=
  .readFrom hR hs ((hR.scope hs hab).map fun _ _ hst => hst.signalled_eq)

/-- A body in paired scopes that are pinned, up to its first signal.  Induction on the
    statements. -/
theorem Performs.runAll (h : R.Performs k k') (hR : R.Lawful) {body : List Statement}
    (hbody : Statement.AllEverywhere R.shape body) (hs : R.Sound j) (hab : R.PinnedScope j a b) :
    R.Steps true j (k.runAll a body) (k'.runAll b body) fun _ _ _ => True := by
  induction body generalizing j with
  | nil => exact .pure hs trivial
  | cons statement rest ih =>
    refine (h.execute hs hbody.1).bind fun now _ _ hs hleads _ => ?_
    have hab := hleads.pinnedScope a b hab
    refine (Steps.signalled hR hs hab.paired).bind fun now x y hs _ ⟨hnow, hxy⟩ => ?_
    subst hnow hxy
    cases x with
    | true => exact .pure hs trivial
    | false =>
      refine (h.pause hs).bind fun next _ _ hs hleads _ => ?_
      exact ih hbody.2 hs (hleads.pinnedScope a b hab)

/-- A block: its scopes are the active ones while it runs. -/
theorem Performs.runBlock (h : R.Performs k k') (hR : R.Signalling) {body : List Statement}
    (hbody : Statement.AllEverywhere R.shape body) (hs : R.Sound j) (hab : j.pairing.scope a b) :
    R.Steps true j (k.runBlock a body) (k'.runBlock b body) fun now _ _ => now.pairing.scope a b :=
  Steps.within hR hs hab fun hs => h.runAll hR.toLawful hbody hs (pinnedScope_active hab)

/-- A nested block: new scopes are made for it, and its signals are handed on to the scopes
    around. -/
theorem Performs.runNested (h : R.Performs k k') (hR : R.Signalling) {body : List Statement}
    (hbody : Statement.AllEverywhere R.shape body) (hs : R.Sound j) :
    R.Steps true j (k.runNested body) (k'.runNested body) fun _ _ _ => True := by
  have houter : R.PinnedScope j j.left.scope j.right.scope := pinnedScope_active (hR.active hs)
  refine (Steps.activeScope hR.toLawful hs).bind fun now _ _ hs _ ⟨hnow, houter₁, houter₂, _⟩ => ?_
  subst hnow houter₁ houter₂
  refine (Steps.newScope hR.toLawful hs houter.paired).bind fun now c d hs hleads hcd => ?_
  have houter := hleads.pinnedScope _ _ houter
  refine (h.runBlock hR hbody hs hcd).bind fun now _ _ hs hleads hcd => ?_
  have houter := hleads.pinnedScope _ _ houter
  refine (Steps.lowerSignals hR hs hcd).bind fun now x y hs hleads ⟨_, hbroke, hreturned⟩ => ?_
  have houter := hleads.pinnedScope _ _ houter
  obtain ⟨broke, returned⟩ := x
  obtain ⟨broke', returned'⟩ := y
  cases hbroke
  cases broke with
  | true => exact .setBroke hR hs houter.paired
  | false =>
    cases hreturned with
    | some huv => exact .setReturned hR hs houter.paired huv
    | none => exact .pure hs trivial

/-! ## Loops -/

/-- The test of a loop passes on both sides or on neither, and lets go of what it held. -/
theorem Matched.passes (h : R.Matched k k') (hR : R.Lawful) (hs : R.Sound j)
    {test : Option Expression} (htest : Expression.Everywhere? R.shape test)
    (hheld : j.left.held = held ∧ j.right.held = held') :
    R.Steps true j (k.passes held test) (k'.passes held' test) fun _ x y => x = y := by
  obtain ⟨rfl, rfl⟩ := hheld
  cases test with
  | none => exact .pure hs rfl
  | some test =>
    have htruth : R.Steps false j (do Eval.truthy (← k.evaluate test))
        (do Eval.truthy (← k'.evaluate test)) fun _ x y => x = y := by
      refine (h.evaluate hs htest).bind fun now u v hs _ huv => ?_
      exact (Steps.truthy hR hs huv.alike).weaken fun _ _ _ h => h.2
    have hset := htruth.bindSetHeld hR hs (f := fun x _ => pure x) (g := fun y _ => pure y)
      (P := fun _ x y => x = y) fun _ _ _ hs _ hxy => .pure hs hxy
    rw [bind_assoc, bind_assoc] at hset
    exact hset

/-- One turn of a loop: test, body, signals and increment. -/
theorem Performs.loopTurn (hk : R.Performs k k') (h : R.Matched k k') (hR : R.Signalling)
    {test increment : Option Expression} {body : List Statement}
    (htest : Expression.Everywhere? R.shape test)
    (hincrement : Expression.Everywhere? R.shape increment)
    (hbody : Statement.AllEverywhere R.shape body) (hs : R.Sound j)
    (houter : R.PinnedScope j outer outer') (hloop : R.PinnedScope j a b)
    (hheld : j.left.held = held ∧ j.right.held = held') :
    R.Steps true j (k.loopTurn outer a held test increment body)
      (k'.loopTurn outer' b held' test increment body) fun _ =>
        TurnAlike (fun _ _ => True) (fun _ _ => True) := by
  refine (h.passes hR.toLawful hs htest hheld).bind fun now x y hs hleads hxy => ?_
  subst hxy
  -- every step leaves the scopes around it pinned and lets go whatever it held, which is said
  -- again after each of them
  have houter := hleads.pinnedScope _ _ houter
  have hloop := hleads.pinnedScope _ _ hloop
  have hheld := (hleads.held rfl).imp (·.trans hheld.1) (·.trans hheld.2)
  cases x with
  | false => exact .pure hs (.done trivial)
  | true =>
    refine (Steps.newScope hR.toLawful hs hloop.paired).bind fun now c d hs hleads hcd => ?_
    have houter := hleads.pinnedScope _ _ houter
    have hheld := (hleads.held rfl).imp (·.trans hheld.1) (·.trans hheld.2)
    refine (hk.runBlock hR hbody hs hcd).bind fun now _ _ hs hleads hcd => ?_
    have houter := hleads.pinnedScope _ _ houter
    have hheld := (hleads.held rfl).imp (·.trans hheld.1) (·.trans hheld.2)
    refine (Steps.lowerSignals hR hs hcd).bind fun now x y hs hleads ⟨_, hbroke, hreturned⟩ => ?_
    have houter := hleads.pinnedScope _ _ houter
    have hheld := (hleads.held rfl).imp (·.trans hheld.1) (·.trans hheld.2)
    obtain ⟨broke, returned⟩ := x
    obtain ⟨broke', returned'⟩ := y
    cases hbroke
    cases hreturned with
    | some huv =>
      refine (Steps.setReturned hR hs houter.paired huv).bind fun _ _ _ hs _ _ => ?_
      exact .pure hs (.done trivial)
    | none =>
      cases broke with
      | true => exact .pure hs (.done trivial)
      | false =>
        cases increment with
        | none => exact (hk.pause hs).bind fun _ _ _ hs _ _ => .pure hs (.again trivial)
        | some increment =>
          obtain ⟨rfl, rfl⟩ := hheld
          refine Steps.bindSetHeld hR.toLawful hs (Q := fun _ _ => True)
            ((h.evaluate hs hincrement).weaken fun _ _ _ _ => trivial) fun _ _ _ hs _ _ => ?_
          exact (hk.pause hs).bind fun _ _ _ hs _ _ => .pure hs (.again trivial)

/-- The turns of a loop, whose first clause has been executed. -/
theorem Performs.turns (hk : R.Performs k k') (h : R.Matched k k') (hR : R.Signalling)
    {test increment : Option Expression} {body : List Statement}
    (htest : Expression.Everywhere? R.shape test)
    (hincrement : Expression.Everywhere? R.shape increment)
    (hbody : Statement.AllEverywhere R.shape body) (hs : R.Sound j)
    (houter : R.PinnedScope j outer outer') (hloop : R.PinnedScope j a b) :
    R.Steps true j
      (do
        let held ← Eval.held
        iterate k.bound (fun _ => k.loopTurn outer a held test increment body) ())
      (do
        let held ← Eval.held
        iterate k'.bound (fun _ => k'.loopTurn outer' b held test increment body) ())
      fun _ _ _ => True := by
  refine (Steps.held hs).bind fun now us vs hs _ ⟨hnow, hus, hvs⟩ => ?_
  subst hnow hus hvs
  refine Steps.iterate h.bound (fun _ => hR.fault) (I := fun _ _ _ => True)
    (fun now _ _ hs hleads _ => ?_) hs trivial
  exact hk.loopTurn h hR htest hincrement hbody hs (hleads.pinnedScope _ _ houter)
    (hleads.pinnedScope _ _ hloop) (hleads.held rfl)

/-- A whole loop in a scope of its own. -/
theorem Performs.runLoop (hk : R.Performs k k') (h : R.Matched k k') (hR : R.Signalling)
    {init : Option Statement} {test increment : Option Expression} {body : List Statement}
    (hinit : Statement.Everywhere? R.shape init) (htest : Expression.Everywhere? R.shape test)
    (hincrement : Expression.Everywhere? R.shape increment)
    (hbody : Statement.AllEverywhere R.shape body) (hs : R.Sound j) :
    R.Steps true j (k.runLoop init test increment body) (k'.runLoop init test increment body)
      fun _ _ _ => True := by
  have houter : R.PinnedScope j j.left.scope j.right.scope := pinnedScope_active (hR.active hs)
  refine (Steps.activeScope hR.toLawful hs).bind fun now _ _ hs _ ⟨hnow, houter₁, houter₂, _⟩ => ?_
  subst hnow houter₁ houter₂
  refine (Steps.newScope hR.toLawful hs houter.paired).bind fun now a b hs hleads hab => ?_
  have houter := hleads.pinnedScope _ _ houter
  refine (Steps.within hR hs hab fun hs => ?_).weaken fun _ _ _ _ => trivial
  have hloop : R.PinnedScope (now.inScopes a (now.left.scope :: now.left.frames) b
    (now.right.scope :: now.right.frames)) a b := pinnedScope_active hab
  cases init with
  | none => exact hk.turns h hR htest hincrement hbody hs houter.entered hloop
  | some init =>
    refine (hk.execute hs hinit).bind fun next _ _ hs hleads _ => ?_
    exact hk.turns h hR htest hincrement hbody hs (hleads.pinnedScope _ _ houter.entered)
      (hleads.pinnedScope _ _ hloop)

/-! ## Choices -/

/-- Alike values are the same as others if and only if their partners are. -/
theorem same_eq (hR : R.Lawful) (hs : R.Sound j) {u' v' : Value} (huv : R.Alike j u v)
    (huv' : R.Alike j u' v') : u.same u' = v.same v' := by
  cases huv with
  | object hab =>
    cases huv' with
    | object hcd => exact decide_eq_decide.2 (hR.objectUnique hs hab hcd)
    | _ => rfl
  | array hab =>
    cases huv' with
    | array hcd => exact decide_eq_decide.2 (hR.arrayUnique hs hab hcd)
    | _ => rfl
  | arrayMethod stamp method hab =>
    cases huv' with
    | arrayMethod stamp' method' hcd =>
      refine decide_eq_decide.2 ?_
      rw [Builtin.arrayMethod.injEq, Builtin.arrayMethod.injEq, hR.arrayUnique hs hab hcd]
    | _ => rfl
  | _ => cases huv' <;> rfl

/-- The labels of a group match a pinned subject on both sides or on neither. -/
theorem Matched.labelMatches (h : R.Matched k k') (hR : R.Lawful) {labels : List Expression}
    (hlabels : Expression.AllEverywhere R.shape labels) (hs : R.Sound j)
    (huv : R.Pinned j u v) :
    R.Steps false j (k.labelMatches u labels) (k'.labelMatches v labels) fun _ x y => x = y := by
  induction labels generalizing j with
  | nil => exact .pure hs rfl
  | cons label rest ih =>
    refine (h.evaluate hs hlabels.1).bind fun now u' v' hs hleads huv' => ?_
    have huv := hleads.pinned _ _ huv
    rw [same_eq hR hs huv'.alike huv.alike]
    cases v'.same v with
    | true => exact .pure hs rfl
    | false => exact ih hlabels.2 hs huv

/-- Both sides choose the same group, or none. -/
theorem Matched.chosenGroup (h : R.Matched k k') (hR : R.Lawful) {groups : List CaseGroup}
    (hgroups : CaseGroup.AllEverywhere R.shape groups) (hs : R.Sound j) (huv : R.Pinned j u v) :
    R.Steps false j (k.chosenGroup u groups) (k'.chosenGroup v groups) fun _ x y =>
      x = y ∧ Statement.AllEverywhere? R.shape x := by
  induction groups generalizing j with
  | nil => exact .pure hs ⟨rfl, trivial⟩
  | cons group rest ih =>
    obtain ⟨labels, body⟩ := group
    refine (h.labelMatches hR hgroups.1.1 hs huv).bind fun now x y hs hleads hxy => ?_
    subst hxy
    cases x with
    | true => exact .pure hs ⟨rfl, hgroups.1.2⟩
    | false => exact ih hgroups.2 hs (hleads.pinned _ _ huv)

/-- A whole choice: subject, labels, and the body that was chosen. -/
theorem Performs.runChoice (hk : R.Performs k k') (h : R.Matched k k') (hR : R.Signalling)
    {subject : Expression} {groups : List CaseGroup} {otherwise : Option (List Statement)}
    (hsubject : subject.Everywhere R.shape) (hgroups : CaseGroup.AllEverywhere R.shape groups)
    (hotherwise : Statement.AllEverywhere? R.shape otherwise) (hs : R.Sound j) :
    R.Steps false j (k.runChoice subject groups otherwise) (k'.runChoice subject groups otherwise)
      fun _ _ _ => True := by
  refine (h.evaluate hs hsubject).bind fun now u v hs _ huv => ?_
  refine (h.chosenGroup hR.toLawful hgroups hs huv).bind
    fun now chosen chosen' hs _ ⟨hchosen, hshape⟩ => ?_
  subst hchosen
  have hbody : Statement.AllEverywhere? R.shape (chosen.or otherwise) := by
    cases chosen with
    | none => exact hotherwise
    | some body => exact hshape
  cases hor : chosen.or otherwise with
  | none => exact .pure hs trivial
  | some body =>
    rw [hor] at hbody
    refine Steps.loosen ?_
    have houter : R.PinnedScope now now.left.scope now.right.scope :=
      pinnedScope_active (hR.active hs)
    refine (Steps.activeScope hR.toLawful hs).bind
      fun now _ _ hs _ ⟨hnow, houter₁, houter₂, _⟩ => ?_
    subst hnow houter₁ houter₂
    refine (Steps.newScope hR.toLawful hs houter.paired).bind fun now c d hs hleads hcd => ?_
    have houter := hleads.pinnedScope _ _ houter
    refine (hk.runBlock hR hbody hs hcd).bind fun now _ _ hs hleads hcd => ?_
    have houter := hleads.pinnedScope _ _ houter
    refine (Steps.lowerSignals hR hs hcd).bind fun now x y hs hleads ⟨_, _, hreturned⟩ => ?_
    have houter := hleads.pinnedScope _ _ houter
    obtain ⟨_, returned⟩ := x
    obtain ⟨_, returned'⟩ := y
    -- a break ends the switch alone, and a value is handed on to the scope around it
    cases hreturned with
    | some huv => exact .setReturned hR hs houter.paired huv
    | none => exact .pure hs trivial

/-! ## All statements -/

/-- The value of an expression that may be missing. -/
theorem Matched.evaluate? (h : R.Matched k k') (hs : R.Sound j) {e : Option Expression}
    (he : Expression.Everywhere? R.shape e) {f g : Value → Eval Unit}
    (hf : ∀ now u v, R.Sound now → R.Alike now u v →
      R.Steps false now (f u) (g v) fun _ _ _ => True) :
    R.Steps false j
      (match e with
        | some e => k.evaluate e >>= f
        | none => f .nil)
      (match e with
        | some e => k'.evaluate e >>= g
        | none => g .nil) fun _ _ _ => True := by
  cases e with
  | some e => exact (h.evaluate hs he).bind fun now u v hs _ huv => hf now u v hs huv.alike
  | none => exact hf j .nil .nil hs .nil

/-- The next level of two evaluators executes in lockstep. -/
theorem Performs.perform (hk : R.Performs k k') (h : R.Matched k k') (hR : R.Signalling)
    {statement : Statement} (hstatement : statement.Everywhere R.shape) (hs : R.Sound j) :
    R.Steps false j (k.perform statement) (k'.perform statement) fun _ _ _ => True := by
  cases statement with
  | empty => exact .pure hs trivial
  | define name initializer =>
    refine h.evaluate? hs hstatement.2 (f := fun value => do
      let scope ← Eval.activeScope
      Eval.store (Store.define scope name value)) (g := fun value => do
      let scope ← Eval.activeScope
      Eval.store (Store.define scope name value)) fun now u v hs huv => ?_
    refine (Steps.activeScope hR.toLawful hs).bind fun now _ _ hs _ ⟨hnow, _, _, hab⟩ => ?_
    subst hnow
    exact (Steps.define hR.toLawful hs hab name huv).weaken fun _ _ _ _ => trivial
  | function code =>
    have hcode : (Expression.function code).Everywhere R.shape := hstatement.2
    exact (h.evaluate hs hcode).bind fun _ _ _ hs _ _ => .pure hs trivial
  | giveBack value =>
    refine h.evaluate? hs hstatement.2 (f := fun value => do
      let scope ← Eval.activeScope
      Eval.store (Store.setReturned scope value)) (g := fun value => do
      let scope ← Eval.activeScope
      Eval.store (Store.setReturned scope value)) fun now u v hs huv => ?_
    refine (Steps.activeScope hR.toLawful hs).bind fun now _ _ hs _ ⟨hnow, _, _, hab⟩ => ?_
    subst hnow
    exact .setReturned hR hs hab huv
  | block body => exact (hk.runNested hR hstatement.2 hs).loosen
  | expression value =>
    exact (h.evaluate hs hstatement.2).bind fun _ _ _ hs _ _ => .pure hs trivial
  | loop init test increment body =>
    exact (hk.runLoop h hR hstatement.2.1 hstatement.2.2.1 hstatement.2.2.2.1
      hstatement.2.2.2.2 hs).loosen
  | leave =>
    refine (Steps.activeScope hR.toLawful hs).bind fun now _ _ hs _ ⟨hnow, _, _, hab⟩ => ?_
    subst hnow
    exact .setBroke hR hs hab
  | branch condition thenBody otherwise =>
    refine (h.evaluate hs hstatement.2.1).bind fun now u v hs _ huv => ?_
    refine (Steps.truthy hR.toLawful hs huv.alike).bind fun now x y hs _ ⟨_, hxy⟩ => ?_
    subst hxy
    cases x with
    | true => exact (hk.runNested hR hstatement.2.2.1 hs).loosen
    | false =>
      cases otherwise with
      | none => exact .pure hs trivial
      | some other => exact (hk.execute hs hstatement.2.2.2).loosen
  | choose subject groups otherwise =>
    exact hk.runChoice h hR hstatement.2.1 hstatement.2.2.1 hstatement.2.2.2 hs

end Regime

end Tao
