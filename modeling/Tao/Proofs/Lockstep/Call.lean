/-
  Calls in lockstep.

  Built-in functions act on the machine directly and need no signals; methods that call back are
  loops over `k.call`, and `Steps.overElements` serves all of them but `reduce`.  An element is read
  before the call and kept alive only after it, when it may be gone; so a method may go on with its
  element only where what is paired stays paired.  Everything else that these methods go on with is
  pinned: the receiver and the function as parts of the call, and results as soon as they are there.
-/
import Tao.Evaluator.Call
import Tao.Proofs.Lockstep.Display
import Tao.Proofs.Lockstep.Statement

namespace Tao

namespace Regime

/-- Two evaluators that call back in lockstep, with nothing pinned. -/
def CallsBack (R : Regime) (k k' : Evaluator) : Prop :=
  ∀ {j u v us vs}, R.Sound j → R.Alike j u v → List.Forall₂ (R.Alike j) us vs →
    R.Steps false j (k.call u us) (k'.call v vs) R.Alike

/-- Alike values that are so at every later joint, too. -/
def Steady (R : Regime) (j : Joint) (u v : Value) : Prop :=
  ∀ now, R.Leads false j now → R.Alike now u v

variable {R : Regime} {j : Joint} {u v f f' : Value} {us vs : List Value} {k k' : Evaluator}
  {a b : ArrayId}

/-- What is pinned stays alike, wherever the runs go. -/
theorem Pinned.steady (h : R.Pinned j u v) : R.Steady j u v :=
  fun _ hleads => (hleads.pinned u v h).alike

/-- What is steady is so at any later joint. -/
theorem Steady.later {now : Joint} (h : R.Steady j u v) (hleads : R.Leads false j now) :
    R.Steady now u v :=
  fun next hnext => h next (hleads.trans hnext)

/-- What is steady is alike at once. -/
theorem Steady.alike (h : R.Steady j u v) : R.Alike j u v := h j .refl

/-! ## Printing and measuring -/

/-- Values that are alike have the same text, so the same is printed. -/
theorem Steps.printValues (hR : R.Lawful) (hs : R.Sound j)
    (h : List.Forall₂ (R.Alike j) us vs) :
    R.Steps false j (Evaluator.printValues us) (Evaluator.printValues vs) fun _ _ _ => True := by
  have htexts : R.Reads Eq (us.mapM j.left.heap.display) (vs.mapM j.right.heap.display) :=
    .mapM_eq h fun _ _ huv => .display hR hs huv
  refine (Steps.readFrom hR hs htexts).bind fun now xs ys hs _ ⟨_, hxy⟩ => ?_
  subst hxy
  exact (hR.write hs).loosen

/-- Values that are alike are equally long. -/
theorem Reads.lengthOf (hR : R.Lawful) (hs : R.Sound j) (h : List.Forall₂ (R.Alike j) us vs) :
    R.Reads Eq (Evaluator.lengthOf j.left.heap us) (Evaluator.lengthOf j.right.heap vs) := by
  cases h with
  | nil => exact .error (hR.admits nofun)
  | cons huv _ =>
    cases huv with
    | string text => exact .ok rfl
    | array hab => exact (hR.array hs hab).map fun _ _ hcd => hcd.size_eq
    | object hab => exact (hR.object hs hab).map fun _ _ hcd => hcd.length_eq
    | _ => exact .error (hR.admits nofun)

/-! ## Methods that call back -/

/-- The function that a method was given is pinned if the arguments are. -/
theorem Reads.functionArgument (hR : R.Lawful) (method : ArrayMethod)
    (h : List.Forall₂ (R.Pinned j) us vs) :
    R.Reads (R.Pinned j) (Evaluator.functionArgument method us)
      (Evaluator.functionArgument method vs) := by
  cases h with
  | nil => exact .error (hR.admits nofun)
  | cons huv _ =>
    cases huv.alike with
    | function _ _ | print | println | len | arrayMethod _ _ _ | stringMethod _ _ _ =>
      exact .ok huv
    | _ => exact .error (hR.admits nofun)

/-- What a method does with the function that it was given.  Without arguments there is none. -/
theorem Steps.withFunction (hR : R.Lawful) (hs : R.Sound j) (method : ArrayMethod) {ready : Prop}
    (h : List.Forall₂ (R.Alike j) us vs) (hready : us = [] ∨ ready ∧ List.Forall₂ (R.Pinned j) us vs)
    {g g' : Value → Eval Value}
    (hg : ∀ f f', ready → List.Forall₂ (R.Pinned j) us vs → R.Pinned j f f' →
      R.Steps false j (g f) (g' f') R.Alike) :
    R.Steps false j (Eval.read (fun _ => Evaluator.functionArgument method us) >>= g)
      (Eval.read (fun _ => Evaluator.functionArgument method vs) >>= g') R.Alike := by
  rcases hready with rfl | ⟨hready, hpinned⟩
  · cases h
    exact .error (hR.admits (e := .missingFunction method) nofun) (hR.fault hs)
  · refine (Steps.readFrom hR hs (f := fun _ => Evaluator.functionArgument method us)
      (g := fun _ => Evaluator.functionArgument method vs)
      (Reads.functionArgument hR method hpinned)).bind fun now f f' hs _ ⟨hnow, hf⟩ => ?_
    subst hnow
    exact hg f f' hready hpinned hf

/-- What stands at a place of paired arrays at the moment. -/
theorem Reads.elementNow (hR : R.Lawful) (hs : R.Sound j) (hab : j.pairing.array a b)
    (place : Nat) : R.Reads (Option.Rel (R.Alike j)) (Evaluator.elementNow a place j.left.heap)
      (Evaluator.elementNow b place j.right.heap) :=
  (hR.array hs hab).map fun _ _ hcd => hcd.getElem? place

/-- Methods that visit the elements one after another, keeping an invariant. -/
theorem Steps.overElements {β γ : Type} (hR : R.Lawful) (hbound : R.SameBound k.bound k'.bound)
    (hback : R.CallsBack k k') {I : Joint → β → γ → Prop}
    {visit : β → Value → Value → Eval (Turn β β)} {visit' : γ → Value → Value → Eval (Turn γ γ)}
    (hlater : ∀ base now x y, R.Leads false base now → I base x y → I now x y)
    (hvisit : ∀ now x y e e' r r', R.Sound now → I now x y →
      (R.lasting → R.Alike now e e') → R.Pinned now r r' →
      R.Steps false now (visit x e r) (visit' y e' r') fun next => TurnAlike (I next) (I next))
    (hs : R.Sound j) (hab : R.Steady j (.array a) (.array b)) (hf : R.Pinned j f f')
    {x : β} {y : γ} (hxy : I j x y) :
    R.Steps false j (k.overElements a f visit x) (k'.overElements b f' visit' y) I := by
  refine Steps.iterate hbound (fun _ => hR.fault)
    (I := fun now s t => s.1 = t.1 ∧ I now s.2 t.2) ?_ hs ⟨rfl, hxy⟩
  rintro now ⟨place, x⟩ ⟨place', y⟩ hs hleads ⟨hplace, hxy⟩
  cases hplace
  have hself := (hab.later hleads).alike
  have hpair : now.pairing.array a b := by
    cases hself with
    | array h => exact h
  refine (Steps.readFrom hR hs (Reads.elementNow hR hs hpair place)).bind
    fun now e e' hs₁ _ ⟨hnow, he⟩ => ?_
  subst hnow
  cases he with
  | none => exact .pure hs₁ (.done hxy)
  | @some e e' he =>
    refine (hback hs₁ (hleads.pinned _ _ hf).alike
      (.cons he (.cons (.number _) (.cons hself .nil)))).bind fun next r r' hs₂ hleads₂ hr => ?_
    refine (Steps.keep hR hs₁ he hs₂).bind fun last _ _ hs₃ hleads₃ hlast => ?_
    subst hlast
    have hr : R.Alike (next.holding (e :: next.left.held) (e' :: next.right.held)) r r' := hr
    refine (Steps.keep hR hs₃ hr hs₃).bind fun last _ _ hs₄ hleads₄ hlast => ?_
    subst hlast
    have hleads := (hleads₂.trans hleads₃).trans hleads₄
    have hlasting := fun hl => (hleads.pinned e e' (.ofLasting hl he)).alike
    refine (hvisit _ x y e e' r r' hs₄ (hlater _ _ x y hleads hxy) hlasting
      (pinned_holding hr)).bind fun now turn turn' hs _ hturn => ?_
    cases hturn with
    | again h => exact .pure hs (.again ⟨rfl, h⟩)
    | done h => exact .pure hs (.done h)

/-- `reduce`: what is folded so far is steady from one turn to the next. -/
theorem Steps.foldElements (hR : R.Lawful) (hbound : R.SameBound k.bound k'.bound)
    (hback : R.CallsBack k k') (hs : R.Sound j) (hab : R.Steady j (.array a) (.array b))
    (hf : R.Pinned j f f') (huv : R.Steady j u v) :
    R.Steps false j (k.foldElements a f u) (k'.foldElements b f' v) R.Alike := by
  refine Steps.iterate hbound (fun _ => hR.fault)
    (I := fun now s t => s.1 = t.1 ∧ R.Steady now s.2 t.2) ?_ hs ⟨rfl, huv⟩
  rintro now ⟨place, memo⟩ ⟨place', memo'⟩ hs hleads ⟨hplace, hmemo⟩
  cases hplace
  have hself := (hab.later hleads).alike
  have hpair : now.pairing.array a b := by
    cases hself with
    | array h => exact h
  refine (Steps.readFrom hR hs (Reads.elementNow hR hs hpair place)).bind
    fun now e e' hs _ ⟨hnow, he⟩ => ?_
  subst hnow
  cases he with
  | none => exact .pure hs (.done hmemo.alike)
  | some he =>
    refine (hback hs (hleads.pinned _ _ hf).alike
      (.cons hmemo.alike (.cons he (.cons (.number _) (.cons hself .nil))))).bind
      fun next r r' hs _ hr => ?_
    refine (Steps.keep hR hs hr hs).bind fun last _ _ hs _ hlast => ?_
    subst hlast
    exact .pure hs (.again ⟨rfl, (pinned_holding hr).steady⟩)

/-- The new array of what was collected. -/
theorem Steps.arrayOfReversed (hR : R.Lawful) (hs : R.Sound j)
    (h : List.Forall₂ (R.Pinned j) us vs) :
    R.Steps false j (Evaluator.arrayOfReversed us) (Evaluator.arrayOfReversed vs) R.Alike := by
  refine (Steps.addArray hR hs (ArrayCell.alike_ofElements
    (List.rel_reverse (Pinned.alikes h)))).bind fun now c d hs _ hcd => ?_
  exact .pure hs (.array hcd)

/-- `filter` and `where`, which keep elements alive only after the call and so want what is paired
    to last. -/
theorem Steps.selectElements (hR : R.Lawful) (hbound : R.SameBound k.bound k'.bound)
    (hback : R.CallsBack k k') (hlasting : R.lasting) (hs : R.Sound j)
    (h : List.Forall₂ (R.Alike j) us vs)
    (hready : us = [] ∨ R.Steady j (.array a) (.array b) ∧ List.Forall₂ (R.Pinned j) us vs) :
    R.Steps false j (k.selectElements a us) (k'.selectElements b vs) R.Alike := by
  refine Steps.withFunction hR hs .filter h hready fun f f' hab _ hf => ?_
  refine (Steps.overElements hR hbound hback
    (I := fun now xs ys => List.Forall₂ (R.Pinned now) xs ys)
    (fun _ _ _ _ hleads h => hleads.pinnedList h) ?_ hs hab hf .nil).bind
    fun now xs ys hs _ hxy => .arrayOfReversed hR hs hxy
  intro now xs ys e e' r r' hs hxy he hr
  refine (Steps.truthy hR hs hr.alike).bind fun now x y hs _ ⟨hnow, hxy'⟩ => ?_
  subst hnow hxy'
  cases x with
  | true => exact .pure hs (.again (.cons (.ofLasting hlasting (he hlasting)) hxy))
  | false => exact .pure hs (.again hxy)

/-- `join` calls nothing back. -/
theorem Steps.joinElements (hR : R.Lawful) (hs : R.Sound j) (hab : j.pairing.array a b)
    (separator : String) :
    R.Steps false j
      (do
        let texts ← Eval.read fun heap => do
          (← heap.array a).elements.toList.mapM heap.display
        return .string (separator.intercalate texts))
      (do
        let texts ← Eval.read fun heap => do
          (← heap.array b).elements.toList.mapM heap.display
        return .string (separator.intercalate texts)) R.Alike := by
  have htexts := (hR.array hs hab).bind fun c d hcd =>
    Reads.mapM_eq (R := R) hcd.elements fun _ _ huv => .display hR hs huv
  refine (Steps.readFrom hR hs htexts).bind fun now xs ys hs _ ⟨_, hxy⟩ => ?_
  subst hxy
  exact .pure hs (.string _)

/-- `find` gives an element that it has not kept alive, for which what is paired has to last,
    too. -/
theorem Steps.findElement (hR : R.Lawful) (hbound : R.SameBound k.bound k'.bound)
    (hback : R.CallsBack k k') (hlasting : R.lasting) (hs : R.Sound j)
    (hab : R.Steady j (.array a) (.array b)) (hf : R.Pinned j f f') :
    R.Steps false j
      (k.overElements a f (fun found element result => do
        if ← Eval.truthy result then return .done element else return .again found) .nil)
      (k'.overElements b f' (fun found element result => do
        if ← Eval.truthy result then return .done element else return .again found) .nil)
      R.Alike := by
  refine (Steps.overElements hR hbound hback (I := R.Pinned)
    (fun _ _ _ _ hleads h => hleads.pinned _ _ h) ?_ hs hab hf
    (.ofLasting hlasting .nil)).weaken fun _ _ _ h => h.alike
  intro now x y e e' r r' hs hxy he hr
  refine (Steps.truthy hR hs hr.alike).bind fun now t t' hs _ ⟨hnow, ht⟩ => ?_
  subst hnow ht
  cases t with
  | true => exact .pure hs (.done (.ofLasting hlasting (he hlasting)))
  | false => exact .pure hs (.again hxy)

/-- All methods of arrays.  Those that pick elements are excluded unless what is paired lasts; to
    those that call back, receiver and arguments have to be pinned. -/
theorem Steps.callArrayMethod (hR : R.Lawful) (hbound : R.SameBound k.bound k'.bound)
    (hback : R.CallsBack k k') (hs : R.Sound j) (method : ArrayMethod)
    (hab : j.pairing.array a b) (h : List.Forall₂ (R.Alike j) us vs)
    (hpicks : R.lasting ∨ method.picks = false)
    (hready : method.callsBack = true →
      us = [] ∨ R.Steady j (.array a) (.array b) ∧ List.Forall₂ (R.Pinned j) us vs) :
    R.Steps false j (k.callArrayMethod method a us) (k'.callArrayMethod method b vs) R.Alike := by
  unfold Evaluator.callArrayMethod
  cases method with
  | push =>
    refine (Steps.pushElements hR hs hab h).bind fun _ n n' hs _ hn => ?_
    subst hn
    exact .pure hs (.number _)
  | pop =>
    refine (Steps.popElement hR hs hab).bind fun now x y hs _ hxy => ?_
    exact .pure hs (optionRel_getD hxy .nil)
  | join =>
    cases h with
    | nil => exact .joinElements hR hs hab ","
    | cons huv _ =>
      cases huv with
      | string separator => exact .joinElements hR hs hab separator
      | _ => exact .error (hR.admits (e := .separatorType _) nofun) (hR.fault hs)
  | each =>
    refine Steps.withFunction hR hs .each h (hready rfl) fun f f' hab _ hf => ?_
    refine (Steps.overElements hR hbound hback (I := fun _ _ _ => True)
      (fun _ _ _ _ _ _ => trivial) ?_ hs hab hf trivial).bind fun _ _ _ hs _ _ => .pure hs .nil
    exact fun now _ _ _ _ _ _ hs _ _ _ => .pure hs (.again trivial)
  | map =>
    refine Steps.withFunction hR hs .map h (hready rfl) fun f f' hab _ hf => ?_
    refine (Steps.overElements hR hbound hback
      (I := fun now xs ys => List.Forall₂ (R.Pinned now) xs ys)
      (fun _ _ _ _ hleads h => hleads.pinnedList h) ?_ hs hab hf .nil).bind
      fun now xs ys hs _ hxy => .arrayOfReversed hR hs hxy
    exact fun now xs ys _ _ _ _ hs hxy _ hr => .pure hs (.again (.cons hr hxy))
  | filter | filterWhere =>
    -- an element is kept across a call, so that its pair has to last
    exact .selectElements hR hbound hback (hpicks.resolve_right nofun) hs h (hready rfl)
  | find =>
    refine Steps.withFunction hR hs .find h (hready rfl) fun f f' hab _ hf => ?_
    exact .findElement hR hbound hback (hpicks.resolve_right nofun) hs hab hf
  | reduce =>
    -- the first memo is the second argument, or nil
    refine Steps.withFunction hR hs .reduce h (hready rfl) fun f f' hab hpinned hf => ?_
    refine .foldElements hR hbound hback hs hab hf ?_
    have hstart := rel_getElem? hpinned 1
    exact optionRel_getD (optionRel_mono (fun _ _ h => h.steady) hstart) fun _ _ => .nil

/-! ## All calls -/

/-- Calls of built-in functions. -/
theorem Steps.callBuiltin (hR : R.Lawful) (hbound : R.SameBound k.bound k'.bound)
    (hback : R.CallsBack k k') (hs : R.Sound j) {x y : Builtin}
    (hxy : R.Alike j (.builtin x) (.builtin y)) (h : List.Forall₂ (R.Alike j) us vs)
    (hpicks : R.lasting ∨ (Value.builtin x).picks = false)
    (hready : (Value.builtin x).callsBack = true →
      us = [] ∨ R.Pinned j (.builtin x) (.builtin y) ∧ List.Forall₂ (R.Pinned j) us vs) :
    R.Steps false j (k.callBuiltin x us) (k'.callBuiltin y vs) R.Alike := by
  cases hxy with
  | print => exact (Steps.printValues hR hs h).bind fun _ _ _ hs _ _ => .pure hs .nil
  | println =>
    refine (Steps.printValues hR hs h).bind fun _ _ _ hs _ _ => ?_
    exact (hR.write hs).loosen.bind fun _ _ _ hs _ _ => .pure hs .nil
  | len =>
    refine (Steps.readFrom hR hs (f := (Evaluator.lengthOf · us)) (g := (Evaluator.lengthOf · vs))
      (Reads.lengthOf hR hs h)).bind fun _ n n' hs _ ⟨_, hn⟩ => ?_
    subst hn
    exact .pure hs (.number _)
  | arrayMethod stamp method hab =>
    refine .callArrayMethod hR hbound hback hs method hab h hpicks fun hcalls => ?_
    refine (hready hcalls).imp_right fun ⟨hself, hargs⟩ => ⟨fun now hleads => ?_, hargs⟩
    cases (hleads.pinned _ _ hself).alike with
    | arrayMethod _ _ hab => exact .array hab
  | stringMethod stamp method receiver =>
    refine .pure hs ?_
    cases method with
    | len => exact .number _
    | lower => exact .string _
    | upper => exact .string _

/-- Binding parameters in scopes that are alike, which leaves them alike.  Induction on the
    parameters. -/
theorem Reads.bindParams (hR : R.Lawful) {s t : Scope} (hst : Scope.Alike R.shape j.pairing s t)
    (hsignals : s.signalled = false) (params : List String)
    (h : List.Forall₂ (R.Alike j) us vs) :
    R.Reads (fun s t => Scope.Alike R.shape j.pairing s t ∧ s.signalled = false)
      (Evaluator.bindParams s params us) (Evaluator.bindParams t params vs) := by
  have hdefine : ∀ {s t : Scope} (name : String) {u v : Value}, s.signalled = false →
      Scope.Alike R.shape j.pairing s t → R.Alike j u v →
      R.Reads (fun s t => Scope.Alike R.shape j.pairing s t ∧ s.signalled = false)
        (s.define name u) (t.define name v) := by
    intro s t name u v hsignals hst huv
    refine (Reads.define hR hst name huv).withLeft.imp fun s' t' ⟨hs', hst'⟩ => ⟨hst', ?_⟩
    unfold Scope.define at hs'
    split at hs'
    · cases hs'
    · cases hs'
      exact hsignals
  induction params generalizing s t us vs with
  | nil => exact .ok ⟨hst, hsignals⟩
  | cons param rest ih =>
    cases h with
    | nil => exact (hdefine param hsignals hst .nil).bind fun s t h => ih h.1 h.2 .nil
    | cons huv h => exact (hdefine param hsignals hst huv).bind fun s t hst => ih hst.1 hst.2 h

/-- Calls of functions that scripts define. -/
theorem Performs.callClosure (hk : R.Performs k k') (hR : R.Signalling) (hs : R.Sound j)
    {stamp : Nat} {code : FunctionCode} (hcode : code.Everywhere R.shape) {c d : ScopeId}
    (hcd : j.pairing.scope c d) (h : List.Forall₂ (R.Alike j) us vs) :
    R.Steps false j (k.callClosure ⟨stamp, code, c⟩ us) (k'.callClosure ⟨stamp, code, d⟩ vs)
      R.Alike := by
  refine (hR.checkDepth hs).loosen.bind fun now _ _ hs _ hnow => ?_
  subst hnow
  refine (Steps.readFrom hR.toLawful hs
    (f := fun _ => Evaluator.bindParams (.inside (some c)) code.params us)
    (g := fun _ => Evaluator.bindParams (.inside (some d)) code.params vs)
    (Reads.bindParams hR.toLawful (Scope.alike_inside hcd) rfl code.params h)).bind
    fun now s t hs _ ⟨hnow, hst, hsignals⟩ => ?_
  subst hnow
  refine (Steps.addScope hR.toLawful hs hst hsignals).bind fun now a b hs _ hab => ?_
  have hbody := (FunctionCode.everywhere_iff.1 hcode).2
  refine (Steps.deeper hR.toLawful hs (P := fun p _ _ => p.scope a b)
    (hk.runBlock hR hbody (hR.deepen hs) hab).loosen).bind fun now _ _ hs _ hab => ?_
  refine (Steps.lowerSignals hR hs hab).bind fun now x y hs _ ⟨_, _, hreturned⟩ => ?_
  exact .pure hs (optionRel_getD hreturned .nil)

/-- The next level of two evaluators calls in lockstep, given what the levels below call back. -/
theorem Performs.callAny (hk : R.Performs k k') (hR : R.Signalling)
    (hbound : R.SameBound k.bound k'.bound) (hback : R.CallsBack k k') (hs : R.Sound j)
    (hcallable : R.Callable j u v us vs) (hpicks : R.lasting ∨ u.picks = false) :
    R.Steps false j (k.callAny u us) (k'.callAny v vs) R.Alike := by
  obtain ⟨huv, h, hready⟩ := hcallable
  cases huv with
  | function hcode hcd => exact hk.callClosure hR hs hcode hcd h
  | print => exact .callBuiltin hR.toLawful hbound hback hs .print h hpicks hready
  | println => exact .callBuiltin hR.toLawful hbound hback hs .println h hpicks hready
  | len => exact .callBuiltin hR.toLawful hbound hback hs .len h hpicks hready
  | arrayMethod stamp method hab =>
    exact .callBuiltin hR.toLawful hbound hback hs (.arrayMethod stamp method hab) h hpicks hready
  | stringMethod stamp method receiver =>
    exact .callBuiltin hR.toLawful hbound hback hs (.stringMethod stamp method receiver) h hpicks
      hready
  | _ => exact .fail hR.toLawful hs nofun

end Regime

end Tao
