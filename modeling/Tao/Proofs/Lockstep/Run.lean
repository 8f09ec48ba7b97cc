/-
  Runs in lockstep.

  `Watch.Agree` lists what the watches of two runs must respect; `watched_inLockstep` ties the knot
  by induction on the levels, and `Regime.finishes` compares the runs of a script from its first
  statement to the flush at its end.  As a flush that fails hides every other error, a run that ends
  with it may have been excused by one.
-/
import Tao.Proofs.Evaluator.Watch
import Tao.Proofs.Lockstep.Call

namespace Tao

/-- Two watches that respect a regime. -/
structure Watch.Agree (R : Regime) (w w' : Watch) : Prop where
  pause : ∀ {j}, R.Sound j → R.Steps true j w.pause w'.pause fun _ _ _ => True
  evaluate : ∀ {j e x y}, R.Sound j → e.Everywhere R.shape → R.Steps false j x y R.Pinned →
    R.Steps false j (w.evaluate e x) (w'.evaluate e y) R.Pinned
  execute : ∀ {j statement x y}, R.Sound j → statement.Everywhere R.shape →
    R.Steps true j x y (fun _ _ _ => True) →
    R.Steps true j (w.execute statement x) (w'.execute statement y) fun _ _ _ => True
  call : ∀ {j u v us vs x y}, R.Sound j → R.Callable j u v us vs →
    (R.lasting ∨ u.picks = false → R.Steps false j x y R.Alike) →
    R.Steps false j (w.call u us x) (w'.call v vs y) R.Alike
  callBack : ∀ {j u v us vs x y}, R.Sound j → R.Alike j u v →
    (R.lasting ∨ u.callsBack = false → R.Steps false j x y R.Alike) →
    R.Steps false j (w.callBack u us x) (w'.callBack v vs y) R.Alike

namespace Regime

variable {R : Regime} {j : Joint} {k k' : Evaluator} {w w' : Watch}

/-! ## Checks -/

section Checks

variable {α β : Type} {exact : Bool} {alarm : Halt RuntimeError}

/-- A check that the right run passes. -/
theorem Steps.requireRight {test : Machine → Prop} [DecidablePred test] {x : Eval α} {y : Eval β}
    {post : Joint → α → β → Prop} (htest : test j.right) (h : R.Steps exact j x y post) :
    R.Steps exact j x (do Eval.require test alarm; y) post := by
  unfold Steps at h ⊢
  have hpass : Eval.require test alarm j.right = .ok () j.right := if_pos htest
  rw [EStateM.bind_of_ok hpass]
  exact h

/-- A check of both runs, after which either is excused if it raises the alarm. -/
theorem Steps.require {test : Machine → Prop} [DecidablePred test] {x : Eval α} {y : Eval β}
    {post : Joint → α → β → Prop} (hleft : R.excusesLeft alarm) (hright : R.excusesRight alarm)
    (h : test j.left → test j.right → R.Steps exact j x y post) :
    R.Steps exact j (do Eval.require test alarm; x) (do Eval.require test alarm; y) post := by
  unfold Steps at h ⊢
  rw [EStateM.bind_apply, EStateM.bind_apply]
  unfold Eval.require
  by_cases htest : test j.left
  · by_cases htest' : test j.right
    · rw [if_pos htest, if_pos htest']
      exact h htest htest'
    · rw [if_neg htest']
      exact .right hright
  · rw [if_neg htest]
    exact .left hleft

/-- A duty that the right run fulfils. -/
theorem Steps.ensureRight {duty : Machine → β → Machine → Prop}
    [∀ m b m', Decidable (duty m b m')] {x : Eval α} {y : Eval β} {post : Joint → α → β → Prop}
    (h : R.Steps exact j x y post)
    (hduty : ∀ now a b, R.Sound now → R.Leads exact j now → post now a b →
      duty j.right b now.right) :
    R.Steps exact j x (Eval.ensure duty alarm y) post := by
  unfold Steps at h ⊢
  unfold Eval.ensure
  generalize x j.left = r at h
  generalize y j.right = s at h
  cases h with
  | ok sound leads holds =>
    dsimp only
    rw [if_pos (hduty _ _ _ sound leads holds)]
    exact .ok sound leads holds
  | error admitted fault => exact .error admitted fault
  | left excused => exact .left excused
  | right excused => exact .right excused

end Checks

/-! ## Levels -/

/-- Where nothing is called that calls back itself, matched evaluators call back in lockstep. -/
theorem Matched.callsBack (h : R.Matched k k') (hw : w.Agree R w') :
    R.CallsBack (k.callingBack w) (k'.callingBack w') := by
  intro j u v us vs hs huv huvs
  refine hw.callBack hs huv fun hback => h.call hs ⟨huv, huvs, fun hcalls => .inr ?_⟩
  have hlasting : R.lasting := hback.resolve_right fun hnot => by
    rw [hcalls] at hnot
    cases hnot
  exact ⟨.ofLasting hlasting huv, huvs.imp fun _ _ huv => .ofLasting hlasting huv⟩

/-- Two evaluators in lockstep. -/
structure InLockstep (R : Regime) (k k' : Evaluator) : Prop where
  matched : R.Matched k k'
  performs : R.Performs k k'

/-- If two watches agree, the evaluators that they watch run in lockstep.  Induction on the
    levels. -/
theorem watched_inLockstep (hR : R.Signalling) (hw : w.Agree R w') {n n' : Nat}
    (hbound : R.SameBound n n') :
    R.InLockstep (Evaluator.watched w n) (Evaluator.watched w' n') := by
  induction n generalizing n' with
  | zero =>
    cases n' with
    | zero =>
      have hout : ∀ {α β : Type} {exact : Bool} {post : Joint → α → β → Prop} {j : Joint},
          R.Sound j → R.Steps exact j (throw .outOfFuel) (throw .outOfFuel) post := fun hs =>
        .outOfFuel (hR.fault hs) (hbound.imp And.right And.left)
      exact ⟨⟨hbound, fun hs _ => hout hs, fun hs _ => hout hs⟩,
        ⟨hw.pause, fun hs _ => hout hs⟩⟩
    | succ n' =>
      -- fuel runs out on the left alone, which must then be an excuse
      have hout := (hbound.resolve_left fun h => nomatch h.1).1
      exact ⟨⟨hbound, fun _ _ => .left hout, fun _ _ => .left hout⟩,
        ⟨hw.pause, fun _ _ => .left hout⟩⟩
  | succ n ih =>
    cases n' with
    | zero =>
      -- and here on the right
      have hout := (hbound.resolve_left fun h => nomatch h.1).2
      exact ⟨⟨hbound, fun _ _ => .right hout, fun _ _ => .right hout⟩,
        ⟨hw.pause, fun _ _ => .right hout⟩⟩
    | succ n' =>
      have hbelow := ih (hbound.imp_left fun h => ⟨Nat.succ.inj h.1, h.2⟩)
      have hmatched := hbelow.matched
      have hperforms := hbelow.performs
      have hback : R.Performs ((Evaluator.watched w n).callingBack w)
          ((Evaluator.watched w' n').callingBack w') := ⟨hperforms.pause, hperforms.execute⟩
      refine ⟨⟨hbound, fun hs he => ?_, fun hs hcallable => ?_⟩,
        ⟨hw.pause, fun hs hstatement => ?_⟩⟩
      · exact hw.evaluate hs he (.kept hR.toLawful (hmatched.express hR.toLawful hs he))
      · exact hw.call hs hcallable fun hpicks => hback.callAny hR hmatched.bound
          (hmatched.callsBack hw) hs hcallable hpicks
      · refine hw.execute hs hstatement ?_
        exact Steps.lettingGo (P := fun _ _ _ => True) hR.toLawful hs
          (hperforms.perform hmatched hR hstatement hs)

/-! ## Scripts -/

/-- Does some call fail with this error? -/
def CallFails (k : Evaluator) (e : RuntimeError) : Prop :=
  ∃ callee arguments m m', k.call callee arguments m = .error (.failed e) m'

/-- A halt that excuses a run, seen after a flush: if the flush failed, the call before it may have
    failed with an excuse. -/
def FlushedExcuse (excuses : Halt RuntimeError → Prop) (k : Evaluator) (halt : Halt RuntimeError) :
    Prop :=
  excuses halt ∨ halt = .failed .flushFailed ∧ ∃ e, excuses (.failed e) ∧ CallFails k e

/-- How two runs may end. -/
inductive Finishes (R : Regime) (k k' : Evaluator) :
    EStateM.Result (Halt RuntimeError) Machine Value →
    EStateM.Result (Halt RuntimeError) Machine Value → Prop where
  | ok {now : Joint} {u v : Value} (sound : R.Sound now) (alike : R.Alike now u v) :
    Finishes R k k' (.ok u now.left) (.ok v now.right)
  | error {halt : Halt RuntimeError} {m m' : Machine} (admitted : R.admits halt)
    (fault : R.AtFault m m') : Finishes R k k' (.error halt m) (.error halt m')
  | left {halt : Halt RuntimeError} {m : Machine}
    {y : EStateM.Result (Halt RuntimeError) Machine Value}
    (excused : FlushedExcuse R.excusesLeft k halt) : Finishes R k k' (.error halt m) y
  | right {halt : Halt RuntimeError} {m : Machine}
    {x : EStateM.Result (Halt RuntimeError) Machine Value}
    (excused : FlushedExcuse R.excusesRight k' halt) : Finishes R k k' x (.error halt m)

/-- What goes on in lockstep finishes alike if, from every joint that it reaches, the rest does. -/
theorem Steps.finishes {α β : Type} {exact : Bool} {x : Eval α} {y : Eval β}
    {f : α → Eval Value} {g : β → Eval Value} {mid : Joint → α → β → Prop}
    (hx : R.Steps exact j x y mid)
    (hf : ∀ now a b, R.Sound now → mid now a b → R.Finishes k k' (f a now.left) (g b now.right)) :
    R.Finishes k k' ((x >>= f) j.left) ((y >>= g) j.right) := by
  unfold Steps at hx
  rw [EStateM.bind_apply, EStateM.bind_apply]
  generalize x j.left = r at hx
  generalize y j.right = s at hx
  cases hx with
  | ok sound _ holds => exact hf _ _ _ sound holds
  | error admitted fault => exact .error admitted fault
  | left excused => exact .left (.inl excused)
  | right excused => exact .right (.inl excused)

/-- A flush that fails comes in the place of any end but a lack of fuel. -/
theorem Steps.flushing (hR : R.Lawful) {u v : Value} {us vs : List Value}
    (hx : R.Steps false j (k.call u us) (k'.call v vs) R.Alike) :
    R.Finishes k k' (Evaluator.flushing (k.call u us) j.left)
      (Evaluator.flushing (k'.call v vs) j.right) := by
  have hfails : R.admits (.failed .flushFailed) := hR.admits nofun
  unfold Steps at hx
  unfold Evaluator.flushing
  generalize hr : k.call u us j.left = r at hx
  generalize hs : k'.call v vs j.right = s at hx
  -- of two runs that have stopped together both flush well or neither does
  cases hx with
  | ok sound _ holds =>
    have hfault := hR.fault sound
    dsimp only
    rw [hR.failsFlush hfault]
    split
    · exact .error hfails hfault
    · exact .ok sound holds
  | @error halt m m' admitted fault =>
    cases halt with
    | outOfFuel => exact .error admitted fault
    | failed e =>
      dsimp only
      rw [hR.failsFlush fault]
      split
      · exact .error hfails fault
      · exact .error admitted fault
  | @left halt m _ excused =>
    cases halt with
    | outOfFuel => exact .left (.inl excused)
    | failed e =>
      dsimp only
      split
      · exact .left (.inr ⟨rfl, e, excused, _, _, _, _, hr⟩)
      · exact .left (.inl excused)
  | @right halt m _ excused =>
    cases halt with
    | outOfFuel => exact .right (.inl excused)
    | failed e =>
      dsimp only
      by_cases hflush : m.sink.failsFlush = true
      · rw [if_pos hflush]
        exact .right (.inr ⟨rfl, e, excused, _, _, _, _, hs⟩)
      · rw [if_neg hflush]
        exact .right (.inl excused)

/-- The statements of a script, with a pause after each.  Induction on them. -/
theorem Performs.runTopLevel (h : R.Performs k k') {statements : List Statement}
    (hstatements : Statement.AllEverywhere R.shape statements) (hs : R.Sound j) :
    R.Steps true j (statements.forM fun statement => do k.execute statement; k.pause)
      (statements.forM fun statement => do k'.execute statement; k'.pause) fun _ _ _ => True := by
  induction statements generalizing j with
  | nil => exact .pure hs trivial
  | cons statement rest ih =>
    have hfirst : R.Steps true j (do k.execute statement; k.pause)
        (do k'.execute statement; k'.pause) fun _ _ _ => True :=
      (h.execute hs hstatements.1).bind fun _ _ _ hs _ _ => h.pause hs
    exact hfirst.bind fun _ _ _ hs _ _ => ih hstatements.2 hs

/-- The values of the entry point, seen from the outermost scopes, are alike. -/
theorem Steps.entryPoint (hR : R.Lawful) (hs : R.Sound j) :
    R.Steps false j Evaluator.entryPoint Evaluator.entryPoint R.Alike := by
  unfold Steps Evaluator.entryPoint
  rw [← hR.entryPoint hs]
  exact Steps.readAlike hR hs (Reads.valueOf hR hs (hR.root hs) _)

/-- Evaluators in lockstep run a script in lockstep. -/
theorem InLockstep.finishes (h : R.InLockstep k k') (hR : R.Signalling) {program : Program}
    (hprogram : Statement.AllEverywhere R.shape program.statements) (hs : R.Sound j) :
    R.Finishes k k' (k.runScript program j.left) (k'.runScript program j.right) := by
  refine (h.performs.runTopLevel hprogram hs).finishes fun now _ _ hs _ => ?_
  refine (Steps.entryPoint hR.toLawful hs).finishes fun now u v hs huv => ?_
  exact Steps.flushing hR.toLawful (h.matched.call hs ⟨huv, .nil, fun _ => .inl rfl⟩)

/-- Two runs of a script under watches that agree. -/
theorem finishes (hR : R.Signalling) (hw : w.Agree R w') {n n' : Nat} (hbound : R.SameBound n n')
    {program : Program} (hprogram : Statement.AllEverywhere R.shape program.statements)
    (hs : R.Sound j) :
    R.Finishes (Evaluator.watched w n) (Evaluator.watched w' n')
      (program.runWatched w n j.left) (program.runWatched w' n' j.right) :=
  (watched_inLockstep hR hw hbound).finishes hR hprogram hs

end Regime

end Tao
