/-
  Expressions in lockstep.

  Two evaluators are `Matched` if they evaluate every expression in lockstep, to values that are
  pinned, and call alike values in lockstep.  Then so does the next level above them: one lemma for
  each kind of expression, put together in `Matched.express`.

  What a call is promised depends on the callee.  One that calls back goes on working with what it
  was given after scripts have run, so callee and arguments have to be pinned; for all others it is
  enough that they are alike when the call begins.
-/
import Tao.Evaluator.Expression
import Tao.Proofs.Lockstep.Place

namespace Tao

/-! ## Methods that call back -/

/-- Does a method of arrays call back? -/
def ArrayMethod.callsBack : ArrayMethod → Bool
  | each | map | filter | filterWhere | find | reduce => true
  | push | pop | join => false

/-- Does a method of arrays pick elements, and hand them on after calling back? -/
def ArrayMethod.picks : ArrayMethod → Bool
  | filter | filterWhere | find => true
  | push | pop | join | each | map | reduce => false

/-- Is this a method of an array that calls back? -/
def Value.callsBack : Value → Bool
  | .builtin (.arrayMethod _ method _) => method.callsBack
  | _ => false

/-- Is this a method of an array that picks elements? -/
def Value.picks : Value → Bool
  | .builtin (.arrayMethod _ method _) => method.picks
  | _ => false

namespace Regime

/-- What may be called: alike values with alike arguments, which have to be pinned if there is a
    call back. -/
structure Callable (R : Regime) (j : Joint) (u v : Value) (us vs : List Value) : Prop where
  callee : R.Alike j u v
  arguments : List.Forall₂ (R.Alike j) us vs
  ready : u.callsBack = true → us = [] ∨ R.Pinned j u v ∧ List.Forall₂ (R.Pinned j) us vs

/-- Two evaluators that evaluate and call in lockstep. -/
structure Matched (R : Regime) (k k' : Evaluator) : Prop where
  bound : R.SameBound k.bound k'.bound
  evaluate : ∀ {j e}, R.Sound j → e.Everywhere R.shape →
    R.Steps false j (k.evaluate e) (k'.evaluate e) R.Pinned
  call : ∀ {j u v us vs}, R.Sound j → R.Callable j u v us vs →
    R.Steps false j (k.call u us) (k'.call v vs) R.Alike

variable {R : Regime} {j : Joint} {u v : Value} {k k' : Evaluator}

/-! ## Operators -/

/-- Operators before an operand follow no handle. -/
theorem givesPlain_applyUnary (operator : Kind) (operand : Value) :
    GivesPlain (applyUnary operator operand) := by
  unfold applyUnary
  split
  · split
    · exact Value.isPlain_number _
    · exact Value.isPlain_number _
    · exact Value.isPlain_number _
    · exact nofun
  · exact nofun

/-- Shifts give numbers, or fail for a negative number of places. -/
theorem givesPlain_shiftLeft (l r : Int64) :
    GivesPlain (do return .number (← shiftLeft l r)) := by
  unfold shiftLeft
  split
  · exact nofun
  · split <;> exact Value.isPlain_number _

theorem givesPlain_shiftRight (l r : Int64) :
    GivesPlain (do return .number (← shiftRight l r)) := by
  unfold shiftRight
  split
  · exact nofun
  · split <;> exact Value.isPlain_number _

/-- Operators between numbers follow no handle. -/
theorem givesPlain_applyToNumbers (operator : Kind) (l r : Int64) :
    GivesPlain (applyToNumbers operator l r) := by
  unfold applyToNumbers
  cases operator
  case leftShift => exact givesPlain_shiftLeft l r
  case rightShift => exact givesPlain_shiftRight l r
  case slash | percent | starStar =>
    dsimp only
    split
    · exact nofun
    · exact Value.isPlain_number _
  all_goals first
    | exact Value.isPlain_number _
    | exact Value.isPlain_boolean _
    | exact ErrorCategory.noConfusion

/-- Operators between any values follow no handle. -/
theorem givesPlain_applyBinary (operator : Kind) (left right : Value) :
    GivesPlain (applyBinary operator left right) := by
  unfold applyBinary
  split
  · exact givesPlain_applyToNumbers operator _ _
  · dsimp only
    split
    · exact Value.isPlain_boolean _
    · exact Value.isPlain_boolean _
    · exact nofun
  · dsimp only
    split
    · exact Value.isPlain_boolean _
    · exact Value.isPlain_boolean _
    · exact nofun
  · dsimp only
    split
    · exact Value.isPlain_string _
    · exact Value.isPlain_boolean _
    · exact Value.isPlain_boolean _
    · exact nofun
  · exact nofun

/-- So an operator before values that are alike gives the same, whose handles do not matter. -/
theorem Reads.applyUnary (hR : R.Lawful) (operator : Kind) (huv : R.Alike j u v) :
    R.Reads (R.Alike j) (applyUnary operator u) (applyUnary operator v) := by
  have heq : Tao.applyUnary operator u = Tao.applyUnary operator v := by cases huv <;> rfl
  rw [heq]
  exact .plain hR (givesPlain_applyUnary operator v)

/-- The same of an operator between values. -/
theorem Reads.applyBinary (hR : R.Lawful) (operator : Kind) {u' v' : Value}
    (huv : R.Alike j u v) (huv' : R.Alike j u' v') :
    R.Reads (R.Alike j) (applyBinary operator u u') (applyBinary operator v v') := by
  have heq : Tao.applyBinary operator u u' = Tao.applyBinary operator v v' := by
    unfold Tao.applyBinary
    rw [huv.type_eq, huv'.type_eq]
    cases huv <;> cases huv' <;> rfl
  rw [heq]
  exact .plain hR (givesPlain_applyBinary operator v v')

/-! ## What `new` and function literals make -/

/-- The arguments of `new Array` ask for the same size. -/
theorem arraySize_eq {us vs : List Value} (h : List.Forall₂ (R.Alike j) us vs) :
    arraySize us = arraySize vs := by
  cases h with
  | nil => rfl
  | cons huv _ => cases huv <;> rfl

/-- A size that is refused is an error that scripts can cause. -/
theorem arraySize_external {us : List Value} {e : RuntimeError} (h : arraySize us = .error e) :
    e.category ≠ .internal := by
  unfold arraySize at h
  split at h
  · cases h
  · split at h
    · cases h
      exact nofun
    · split at h
      · cases h
      · cases h
        exact nofun
  · cases h
    exact nofun

/-- What `new` makes is alike on both sides. -/
theorem Steps.make (hR : R.Lawful) (hs : R.Sound j) (maker : Maker) {us vs : List Value}
    (h : List.Forall₂ (R.Alike j) us vs) :
    R.Steps false j (maker.make us) (maker.make vs) R.Alike := by
  cases maker with
  | object =>
    refine (Steps.addObject hR hs (c := .empty) (d := .empty) .nil).bind fun now a b hs _ hab => ?_
    exact .pure hs (.object hab)
  | array =>
    have hsize : R.Reads Eq (arraySize us) (arraySize vs) := by
      rw [arraySize_eq h]
      exact .same hR fun _ => arraySize_external
    refine (Steps.readFrom hR hs (f := fun _ => arraySize us) (g := fun _ => arraySize vs)
      hsize).bind fun now n n' hs _ ⟨hnow, hn⟩ => ?_
    subst hnow hn
    refine (Steps.addArray hR hs (ArrayCell.alike_replicate n .nil)).bind
      fun now a b hs _ hab => ?_
    exact .pure hs (.array hab)

/-- Functions are made with the same stamp and code, in paired scopes. -/
theorem Steps.makeFunction (hR : R.Lawful) (hs : R.Sound j) {code : FunctionCode}
    (hcode : code.Everywhere R.shape) :
    R.Steps false j (Evaluator.makeFunction code) (Evaluator.makeFunction code) R.Alike := by
  refine (Steps.activeScope hR hs).bind fun now a b hs _ ⟨hnow, _, _, hab⟩ => ?_
  subst hnow
  refine (Steps.freshStamp hR hs).bind fun now stamp stamp' hs _ ⟨hpairing, hstamp⟩ => ?_
  subst hstamp
  rw [← hpairing] at hab
  have hfunction : R.Alike now (.function ⟨stamp, code, a⟩) (.function ⟨stamp, code, b⟩) :=
    .function hcode hab
  cases code.name with
  | none => exact .pure hs hfunction
  | some name =>
    refine (Steps.define hR hs hab name hfunction).bind fun next _ _ hs _ hpairing => ?_
    refine .pure hs ?_
    unfold Regime.Alike
    rw [hpairing]
    exact hfunction

/-! ## Places of assignments -/

/-- The parts of a place are evaluated one after the other, and stay pinned. -/
theorem Matched.place (h : R.Matched k k') (hR : R.Lawful) (hs : R.Sound j) {e : Expression}
    (he : e.Everywhere R.shape) :
    R.Steps false j (k.place e) (k'.place e) fun now p q => Place.Rel (R.Pinned now) p q := by
  cases e with
  | name text => exact .pure hs (.name text)
  | index target key =>
    refine (h.evaluate hs he.2.1).bind fun now t t' hs _ ht => ?_
    refine (h.evaluate hs he.2.2).bind fun next u v hs hleads huv => ?_
    exact .pure hs (.slot (hleads.pinned _ _ ht) huv)
  | _ => exact .fail hR hs nofun

/-- A step on places whose parts are pinned. -/
theorem Steps.step (hR : R.Lawful) (hs : R.Sound j) (operator : Kind) (before : Bool)
    {p q : Place} (hpq : Place.Rel (R.Pinned j) p q) :
    R.Steps false j (Evaluator.step operator before p) (Evaluator.step operator before q)
      R.Alike := by
  refine (Steps.load hR hs hpq).bind fun now u v hs hleads huv => ?_
  cases huv with
  | number old =>
    refine (Steps.store hR hs (hleads.place hpq) (.number _)).bind fun now _ _ hs _ _ => ?_
    exact .pure hs (.number _)
  | _ => exact .fail hR hs nofun

/-! ## Expressions -/

/-- Expressions are evaluated one after another, and the first values stay pinned while the later
    ones are computed. -/
theorem Matched.evaluateAll (h : R.Matched k k') (hs : R.Sound j) {es : List Expression}
    (hes : Expression.AllEverywhere R.shape es) :
    R.Steps false j (es.mapM k.evaluate) (es.mapM k'.evaluate)
      fun now us vs => List.Forall₂ (R.Pinned now) us vs :=
  Steps.mapM (fun _ _ _ _ hleads => hleads.pinned _ _) (fun _ _ he hs => h.evaluate hs he)
    (Expression.allEverywhere_iff.1 hes) hs

/-- A logical operator whose right operand is needed gives its truth. -/
theorem Matched.truth (h : R.Matched k k') (hR : R.Lawful) (hs : R.Sound j) {e : Expression}
    (he : e.Everywhere R.shape) :
    R.Steps false j (do return .boolean (← Eval.truthy (← k.evaluate e)))
      (do return .boolean (← Eval.truthy (← k'.evaluate e))) R.Alike := by
  refine (h.evaluate hs he).bind fun now u v hs _ huv => ?_
  refine (Steps.truthy hR hs huv.alike).bind fun now a b hs _ ⟨_, hab⟩ => ?_
  subst hab
  exact .pure hs (.boolean a)

/-- The values under the keys of an object literal. -/
theorem Matched.entries (h : R.Matched k k') {entries : List Entry}
    (hentries : Entry.AllEverywhere R.shape entries) (hs : R.Sound j) {xs ys : Props}
    (hxy : Named.Rel (R.Pinned j) xs ys) :
    R.Steps false j
      (entries.foldlM (fun props (.mk key value) => do
        return Props.set key (← k.evaluate value) props) xs)
      (entries.foldlM (fun props (.mk key value) => do
        return Props.set key (← k'.evaluate value) props) ys)
      fun now xs ys => Named.Rel (R.Pinned now) xs ys := by
  induction entries generalizing j xs ys with
  | nil => exact .pure hs hxy
  | cons entry rest ih =>
    obtain ⟨key, value⟩ := entry
    rw [List.foldlM_cons, List.foldlM_cons]
    have hfirst : R.Steps false j (do return Props.set key (← k.evaluate value) xs)
        (do return Props.set key (← k'.evaluate value) ys)
        fun now xs ys => Named.Rel (R.Pinned now) xs ys := by
      refine (h.evaluate hs hentries.1).bind fun now u v hs hleads huv => ?_
      exact .pure hs (Named.Rel.set (hxy.mono hleads.pinned) huv key)
    exact hfirst.bind fun now xs ys hs _ hxy => ih hentries.2 hs hxy

/-- The next level of two evaluators evaluates in lockstep. -/
theorem Matched.express (h : R.Matched k k') (hR : R.Lawful) (hs : R.Sound j) {e : Expression}
    (he : e.Everywhere R.shape) :
    R.Steps false j (k.express e) (k'.express e) R.Alike := by
  cases e with
  | literal value => exact .pure hs (.ofLiteral value)
  | name text => exact .nameValue hR hs text
  | unary operator operand =>
    refine (h.evaluate hs he.2).bind fun now u v hs _ huv => ?_
    -- `!` asks for the truth of its operand; the other operators read its value
    by_cases hnot : operator = .not
    · rw [if_pos hnot, if_pos hnot]
      refine (Steps.truthy hR hs huv.alike).bind fun now a b hs _ ⟨_, hab⟩ => ?_
      subst hab
      exact .pure hs (.boolean _)
    · rw [if_neg hnot, if_neg hnot]
      exact .readAlike hR hs (.applyUnary hR operator huv.alike)
  | step operator before target =>
    refine (h.place hR hs he.2).bind fun now p q hs _ hpq => ?_
    exact .step hR hs operator before hpq
  | binary operator left right =>
    refine (h.evaluate hs he.2.1).bind fun now u v hs _ huv => ?_
    -- of `&&` and `||` the right side is evaluated only where the left one leaves it open
    by_cases hand : operator = .andAnd
    · rw [if_pos hand, if_pos hand]
      refine (Steps.truthy hR hs huv.alike).bind fun now a b hs _ ⟨_, hab⟩ => ?_
      subst hab
      cases a with
      | true => exact h.truth hR hs he.2.2
      | false => exact .pure hs (.boolean false)
    · rw [if_neg hand, if_neg hand]
      by_cases hor : operator = .orOr
      · rw [if_pos hor, if_pos hor]
        refine (Steps.truthy hR hs huv.alike).bind fun now a b hs _ ⟨_, hab⟩ => ?_
        subst hab
        cases a with
        | true => exact .pure hs (.boolean true)
        | false => exact h.truth hR hs he.2.2
      · rw [if_neg hor, if_neg hor]
        refine (h.evaluate hs he.2.2).bind fun next u' v' hs hleads huv' => ?_
        exact .readAlike hR hs
          (.applyBinary hR operator (hleads.pinned _ _ huv).alike huv'.alike)
  | conditional condition thenValue elseValue =>
    refine (h.evaluate hs he.2.1).bind fun now u v hs _ huv => ?_
    refine (Steps.truthy hR hs huv.alike).bind fun now a b hs _ ⟨_, hab⟩ => ?_
    subst hab
    cases a with
    | true => exact (h.evaluate hs he.2.2.1).weaken fun _ _ _ h => h.alike
    | false => exact (h.evaluate hs he.2.2.2).weaken fun _ _ _ h => h.alike
  | construct maker arguments =>
    refine (h.evaluate hs he.2.1).bind fun now u v hs _ huv => ?_
    refine (h.evaluateAll hs he.2.2).bind fun next us vs hs hleads huvs => ?_
    cases (hleads.pinned _ _ huv).alike with
    | maker maker => exact .make hR hs maker (Pinned.alikes huvs)
    | _ => exact .fail hR hs nofun
  | assign target value =>
    refine (h.evaluate hs he.2.2).bind fun now u v hs _ huv => ?_
    -- the value is held while its place is found, so it is pinned until it is stored and given
    refine (h.place hR hs he.2.1).bind fun next p q hs hleads hpq => ?_
    have huv := hleads.pinned _ _ huv
    refine (Steps.store hR hs hpq huv.alike).bind fun last _ _ hs hleads _ => ?_
    exact .pure hs (hleads.pinned _ _ huv).alike
  | function code => exact .makeFunction hR hs he
  | index target key =>
    refine (h.evaluate hs he.2.1).bind fun now t t' hs _ ht => ?_
    refine (h.evaluate hs he.2.2).bind fun next u v hs hleads huv => ?_
    exact .loadSlot hR hs (hleads.pinned _ _ ht).alike huv.alike
  | call callee arguments =>
    refine (h.evaluate hs he.2.1).bind fun now u v hs _ huv => ?_
    refine (h.evaluateAll hs he.2.2).bind fun next us vs hs hleads huvs => ?_
    have huv := hleads.pinned _ _ huv
    exact h.call hs ⟨huv.alike, Pinned.alikes huvs, fun _ => .inr ⟨huv, huvs⟩⟩
  | object entries =>
    refine (h.entries he.2 hs .nil).bind fun now xs ys hs _ hxy => ?_
    refine (Steps.addObject hR hs (c := ⟨xs⟩) (d := ⟨ys⟩)
      (hxy.mono fun _ _ h => h.alike)).bind fun now a b hs _ hab => ?_
    exact .pure hs (.object hab)
  | array elements =>
    refine (h.evaluateAll hs he.2).bind fun now us vs hs _ huvs => ?_
    refine (Steps.addArray hR hs
      (ArrayCell.alike_ofElements (Pinned.alikes huvs))).bind fun now a b hs _ hab => ?_
    exact .pure hs (.array hab)

end Regime

end Tao
