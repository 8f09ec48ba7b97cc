/-
  Stepping a number where it is kept.

  `++t` evaluates the parts of `t` once, takes the number that is there and stores the next one.
  `t += 1` is read as `t = t + 1`: the value of `t` goes through an operator, and the parts of `t`
  are evaluated again to find where the sum is to be stored.  Where `t` only looks, both times come
  to the same place, and what is left is to go through what can fail on the way.
-/
import Mathlib
import Tao.Proofs.Control.Balance
import Tao.Proofs.Looking
import Tao.Proofs.Parser.Climbing.Chain

namespace Tao

/-! ## The two forms -/

/-- An operator that steps, the assignment and the operator that do the same, and by how much. -/
inductive Kind.Stepping : Kind → Kind → Kind → Int → Prop where
  | up : Stepping .increment .plusAssign .plus 1
  | down : Stepping .decrement .minusAssign .minus (-1)

/-- What `t += 1` and `t -= 1` are read as. -/
def Expression.compound (operator : Kind) (target : Expression) : Expression :=
  .assign target (.binary operator target (.literal (.number 1)))

/-- The number that stepping makes of another one. -/
def Kind.stepped (step : Kind) (old : Int64) : Int64 :=
  if step = .increment then old + 1 else old - 1

section Forms

variable {m : Machine} {n : Nat} {target : Expression} {step assignment operator : Kind}
  {amount : Int} {place : Place} {before : Bool} {old : Int64} {heap : Heap} {e : RuntimeError}

namespace Kind.Stepping

/-- A step adds or takes away one and wraps. -/
theorem toInt_stepped (h : Stepping step assignment operator amount) (old : Int64) :
    (step.stepped old).toInt = (old.toInt + amount).bmod (2 ^ 64) := by
  cases h with
  | up => exact Int64.toInt_add old 1
  | down => exact Int64.toInt_sub old 1

/-- The operator of the assignment does just that with a number. -/
theorem applyBinary_number (h : Stepping step assignment operator amount) (old : Int64) :
    applyBinary operator (.number old) (.number 1) = .ok (.number (step.stepped old)) := by
  cases h <;> rfl

/-- It fails with anything else. -/
theorem applyBinary_other (h : Stepping step assignment operator amount) {value : Value}
    (hvalue : value.type ≠ .number) :
    applyBinary operator value (.number 1) =
      .error (.unsupportedOperator operator value.type .number) := by
  cases h <;> cases value <;> first | rfl | exact absurd rfl hvalue

end Kind.Stepping

namespace Evaluator

/-- A plain target is found, or it fails in the same way, at every level that is high enough. -/
theorem place_ends (h : target.IsPlain) (m : Machine) :
    (∃ place : Place, ∀ n, target.levels ≤ n + 1 →
      m.Leaves ((ofFuel n).place target) m.heap place.Retaken) ∨
    ∃ e, ∀ n, target.levels ≤ n + 1 → m.Fails ((ofFuel n).place target) e := by
  have hpurely : ∀ n, target.levels ≤ n + 1 → Purely m Place.Retaken
      ((ofFuel target.levels).place target) ((ofFuel n).place target) :=
    fun n => purely_place h (Nat.le_succ _)
  exact Purely.ends hpurely target.levels (Nat.le_succ _)

/-- So it is with loading from a place, however often the place is found. -/
theorem load_ends (place : Place) (m : Machine) :
    (∃ value : Value, ∀ place', place.Retaken place' →
      m.Leaves place'.load m.heap value.Retaken) ∨
    ∃ e, ∀ place', place.Retaken place' → m.Fails place'.load e := by
  have hpurely : ∀ place', place.Retaken place' → Purely m Value.Retaken place.load place'.load :=
    fun place' => purely_load
  exact Purely.ends hpurely place (.refl place)

/-- The compound assignment evaluates the sum, finds the place again and stores. -/
theorem compound_above (operator : Kind) (target : Expression) (n : Nat) :
    (ofFuel (n + 2)).evaluate (target.compound operator) =
      Eval.kept ((ofFuel (n + 1)).evaluate (.binary operator target (.literal (.number 1))) >>=
        fun sum => (ofFuel (n + 1)).place target >>= fun place =>
          place.store sum >>= fun _ => pure sum) := evaluate_succ (n + 1) _

/-- The step finds the place and does the rest there. -/
theorem step_above (step : Kind) (before : Bool) (target : Expression) (n : Nat) :
    (ofFuel (n + 1)).evaluate (.step step before target) =
      Eval.kept ((ofFuel n).place target >>= Evaluator.step step before) := evaluate_succ n _

/-- The value of what stands for a place, as `step` takes it. -/
theorem evaluate_place (h : target.isPlace = true) (n : Nat) :
    (ofFuel (n + 1)).evaluate target = Eval.kept ((ofFuel n).place target >>= Place.load) := by
  rw [evaluate_succ, express_eq_load _ h]

/-- The sum is that of the value of the target and one. -/
theorem binary_above (h : Kind.Stepping step assignment operator amount) (target : Expression)
    (n : Nat) :
    (ofFuel (n + 2)).evaluate (.binary operator target (.literal (.number 1))) =
      Eval.kept ((ofFuel (n + 1)).evaluate target >>= fun left =>
        Eval.kept (pure (.number 1)) >>= fun right =>
          Eval.read fun _ => applyBinary operator left right) := by
  have hone : (ofFuel (n + 1)).evaluate (.literal (.number 1)) = Eval.kept (pure (.number 1)) :=
    evaluate_succ n _
  rw [evaluate_succ, ← hone]
  cases h <;> rfl

/-- If the target has a number, the sum is that number stepped. -/
theorem binary_leaves (h : Kind.Stepping step assignment operator amount) {old : Int64}
    (htarget : m.Leaves ((ofFuel (n + 1)).evaluate target) m.heap (· = .number old)) :
    m.Leaves ((ofFuel (n + 2)).evaluate (.binary operator target (.literal (.number 1)))) m.heap
      (· = .number (step.stepped old)) := by
  rw [binary_above h]
  refine .kept (htarget.bind ?_)
  rintro _ rfl
  refine (Machine.Leaves.pure rfl).kept.bind ?_
  rintro _ rfl later hlater
  rw [h.applyBinary_number]
  exact ⟨_, later, rfl, hlater, rfl⟩

/-- If it has anything else, the operator fails. -/
theorem binary_fails_of_type (h : Kind.Stepping step assignment operator amount) {type : ValueType}
    (htype : type ≠ .number)
    (htarget : m.Leaves ((ofFuel (n + 1)).evaluate target) m.heap (·.type = type)) :
    m.Fails ((ofFuel (n + 2)).evaluate (.binary operator target (.literal (.number 1))))
      (.unsupportedOperator operator type .number) := by
  rw [binary_above h]
  refine .kept (htarget.failing ?_)
  rintro value rfl
  refine (Machine.Leaves.pure rfl).kept.failing ?_
  rintro _ rfl later hlater
  rw [h.applyBinary_other htype]
  exact ⟨later, rfl, hlater⟩

/-- If the target fails, so does the sum. -/
theorem binary_fails (h : Kind.Stepping step assignment operator amount) {e : RuntimeError}
    (htarget : m.Fails ((ofFuel (n + 1)).evaluate target) e) :
    m.Fails ((ofFuel (n + 2)).evaluate (.binary operator target (.literal (.number 1)))) e := by
  rw [binary_above h]
  exact .kept htarget.bind

/-- The compound assignment fails where its target does. -/
theorem compound_fails (h : Kind.Stepping step assignment operator amount) {e : RuntimeError}
    (htarget : m.Fails ((ofFuel (n + 1)).evaluate target) e) :
    m.Fails ((ofFuel (n + 3)).evaluate (target.compound operator)) e := by
  rw [compound_above]
  exact .kept (binary_fails h htarget).bind

/-- The assignment fails where the operator does. -/
theorem compound_fails_of_type (h : Kind.Stepping step assignment operator amount)
    {type : ValueType} (htype : type ≠ .number)
    (htarget : m.Leaves ((ofFuel (n + 1)).evaluate target) m.heap (·.type = type)) :
    m.Fails ((ofFuel (n + 3)).evaluate (target.compound operator))
      (.unsupportedOperator operator type .number) := by
  rw [compound_above]
  exact .kept (binary_fails_of_type h htype htarget).bind

/-- It also fails where the target cannot be found as a place. -/
theorem compound_fails_of_place (h : Kind.Stepping step assignment operator amount) {old : Int64}
    {e : RuntimeError}
    (htarget : m.Leaves ((ofFuel (n + 1)).evaluate target) m.heap (· = .number old))
    (hplace : m.Fails ((ofFuel (n + 2)).place target) e) :
    m.Fails ((ofFuel (n + 3)).evaluate (target.compound operator)) e := by
  rw [compound_above]
  exact .kept ((binary_leaves h htarget).failing fun _ _ => hplace.bind)

/-- The step stores the same number and gives it, or the one before. -/
theorem step_leaves (hload : m.Leaves place.load m.heap (· = .number old))
    (hstore : m.Leaves (place.store (.number (step.stepped old))) heap fun _ => True) :
    m.Leaves (Evaluator.step step before place) heap
      (· = .number (if before then step.stepped old else old)) := by
  refine hload.bind ?_
  rintro _ rfl
  exact hstore.bind fun _ _ => .pure rfl

/-- It fails where there is no number. -/
theorem step_fails_of_type {type : ValueType} (htype : type ≠ .number)
    (hload : m.Leaves place.load m.heap (·.type = type)) :
    m.Fails (Evaluator.step step before place) (.badStepTarget step type) := by
  refine hload.failing ?_
  rintro value rfl
  cases value with
  | number => exact absurd rfl htype
  | _ => exact Machine.fails_fail _

/-- Nor does a step succeed where nothing can be stored. -/
theorem step_fails_of_store (hload : m.Leaves place.load m.heap (· = .number old))
    (hstore : m.Fails (place.store (.number (step.stepped old))) e) :
    m.Fails (Evaluator.step step before place) e := by
  refine hload.failing ?_
  rintro _ rfl
  exact hstore.bind

end Evaluator

/-- Stepping a target and assigning the sum to it have the same value and leave the same heap, or
    both fail and leave it as it was. -/
inductive SteppedAlike (m : Machine) (k : Evaluator) (step operator : Kind) (amount : Int)
    (target : Expression) : Prop where
  | stepped (old new : Int64) (heap : Heap)
    (sum : new.toInt = (old.toInt + amount).bmod (2 ^ 64))
    (there : m.Leaves (k.evaluate target) m.heap (· = .number old))
    (before : m.Leaves (k.evaluate (.step step true target)) heap (· = .number new))
    (compound : m.Leaves (k.evaluate (target.compound operator)) heap (· = .number new))
    (after : m.Leaves (k.evaluate (.step step false target)) heap (· = .number old))
  /-- The errors differ only where what is there is no number. -/
  | failed (e e' : RuntimeError)
    (before : m.Fails (k.evaluate (.step step true target)) e)
    (compound : m.Fails (k.evaluate (target.compound operator)) e')
    (after : m.Fails (k.evaluate (.step step false target)) e)
    (errors : e' = e ∨ ∃ type, type ≠ .number ∧ e' = .unsupportedOperator operator type .number)

namespace Evaluator

/-- Where neither form ends, the place is found and stepped in vain whichever side the operator is
    on. -/
theorem steppedAlike_of_fails {e' : RuntimeError}
    (hstep : ∀ before, m.Fails ((ofFuel (n + 2)).place target >>= Evaluator.step step before) e)
    (hcompound : m.Fails ((ofFuel (n + 3)).evaluate (target.compound operator)) e')
    (herrors : e' = e ∨ ∃ type, type ≠ .number ∧
      e' = .unsupportedOperator operator type .number) :
    SteppedAlike m (ofFuel (n + 3)) step operator amount target := by
  have hkept : ∀ before, m.Fails ((ofFuel (n + 3)).evaluate (.step step before target)) e := by
    intro before
    rw [step_above]
    exact (hstep before).kept
  exact .failed e e' (hkept true) hcompound (hkept false) herrors

/-- Nothing can be stored in a constant, so it does not matter what it is. -/
theorem steppedAlike_literal (h : Kind.Stepping step assignment operator amount) (value : Literal)
    (m : Machine) (n : Nat) :
    SteppedAlike m (ofFuel (n + 3)) step operator amount (.literal value) := by
  let e := RuntimeError.notAssignable (Expression.literal value).outline
  have hplace : m.Fails ((ofFuel (n + 2)).place (.literal value)) e := Machine.fails_fail e
  have hvalue : m.Leaves ((ofFuel (n + 1)).evaluate (.literal value)) m.heap
      (· = value.toValue) := by
    rw [evaluate_succ]
    exact .kept (.pure rfl)
  by_cases htype : value.toValue.type = .number
  · obtain ⟨old, hold⟩ := Value.exists_number htype
    rw [hold] at hvalue
    exact steppedAlike_of_fails (fun _ => hplace.bind) (compound_fails_of_place h hvalue hplace)
      (.inl rfl)
  · have htyped := hvalue.imp fun _ heq => congrArg Value.type heq
    exact steppedAlike_of_fails (fun _ => hplace.bind) (compound_fails_of_type h htype htyped)
      (.inr ⟨_, htype, rfl⟩)

/-- The number is there, and so it remains to store what comes of it. -/
theorem steppedAlike_of_number (h : Kind.Stepping step assignment operator amount)
    (hvalue : ∀ n, target.levels ≤ n + 1 →
      m.Leaves ((ofFuel (n + 1)).evaluate target) m.heap (· = .number old))
    (hplaces : ∀ n, target.levels ≤ n + 1 →
      m.Leaves ((ofFuel n).place target) m.heap place.Retaken)
    (hloads : ∀ place', place.Retaken place' → m.Leaves place'.load m.heap (· = .number old))
    (hn : target.levels ≤ n + 1) :
    SteppedAlike m (ofFuel (n + 3)) step operator amount target := by
  have hplace := hplaces (n + 2) (by omega)
  have hsum := binary_leaves h (hvalue n hn)
  rcases place.store_ends (.number (step.stepped old)) m with ⟨heap, hstores⟩ | ⟨e, hfails⟩
  · have hstep : ∀ before, m.Leaves ((ofFuel (n + 3)).evaluate (.step step before target)) heap
        (· = .number (if before then step.stepped old else old)) := by
      intro before
      rw [step_above]
      exact .kept (hplace.bind fun _ hsame => step_leaves (hloads _ hsame) (hstores _ hsame))
    have hcompound : m.Leaves ((ofFuel (n + 3)).evaluate (target.compound operator)) heap
        (· = .number (step.stepped old)) := by
      rw [compound_above]
      refine .kept (hsum.bind ?_)
      rintro _ rfl
      exact hplace.bind fun _ hsame => (hstores _ hsame).bind fun _ _ => .pure rfl
    exact .stepped old _ heap (h.toInt_stepped old) (hvalue (n + 2) (by omega)) (hstep true)
      hcompound (hstep false)
  · refine steppedAlike_of_fails (e := e) (fun before => ?_) ?_ (.inl rfl)
    · exact hplace.failing fun _ hsame => step_fails_of_store (hloads _ hsame) (hfails _ hsame)
    · rw [compound_above]
      refine .kept (hsum.failing ?_)
      rintro _ rfl
      exact hplace.failing fun _ hsame => (hfails _ hsame).bind

/-- The cases are where stepping fails first: at finding the place, at loading, at what is there. -/
theorem steppedAlike_place (h : Kind.Stepping step assignment operator amount)
    (hplain : target.IsPlain) (hisPlace : target.isPlace = true) (m : Machine)
    (hn : target.levels ≤ n + 1) :
    SteppedAlike m (ofFuel (n + 3)) step operator amount target := by
  have hevaluate := evaluate_place hisPlace
  rcases place_ends hplain m with ⟨place, hplaces⟩ | ⟨e, hfails⟩
  case inr =>
    have hvalue : m.Fails ((ofFuel (n + 1)).evaluate target) e := by
      rw [hevaluate]
      exact (hfails n hn).bind.kept
    exact steppedAlike_of_fails (fun _ => (hfails _ (by omega)).bind) (compound_fails h hvalue)
      (.inl rfl)
  have hplace := hplaces (n + 2) (by omega)
  rcases load_ends place m with ⟨value, hloads⟩ | ⟨e, hfails⟩
  case inr =>
    have hvalue : m.Fails ((ofFuel (n + 1)).evaluate target) e := by
      rw [hevaluate]
      exact ((hplaces n hn).failing hfails).kept
    exact steppedAlike_of_fails (fun _ => hplace.failing fun _ hsame => (hfails _ hsame).bind)
      (compound_fails h hvalue) (.inl rfl)
  have hvalue : ∀ n, target.levels ≤ n + 1 →
      m.Leaves ((ofFuel (n + 1)).evaluate target) m.heap value.Retaken := by
    intro n hn
    rw [hevaluate]
    exact ((hplaces n hn).bind hloads).kept
  by_cases htype : value.type = .number
  · obtain ⟨old, rfl⟩ := Value.exists_number htype
    exact steppedAlike_of_number h (fun n hn => (hvalue n hn).imp fun _ => Value.Retaken.number_eq)
      hplaces (fun _ hsame => (hloads _ hsame).imp fun _ => Value.Retaken.number_eq) hn
  · have htyped := (hvalue n hn).imp fun _ => Value.Retaken.type_eq
    refine steppedAlike_of_fails (e := .badStepTarget step value.type)
      (fun _ => hplace.failing fun _ hsame => ?_) (compound_fails_of_type h htype htyped)
      (.inr ⟨_, htype, rfl⟩)
    exact step_fails_of_type htype ((hloads _ hsame).imp fun _ => Value.Retaken.type_eq)

end Evaluator

end Forms

/-! ## How the two forms are read -/

section Reading

open Tao.Parser Tao.Grammar

variable {n : Nat} {i o : List Lexeme} {l : Lexeme} {target : Expression}
  {step assignment operator : Kind} {amount : Int}

/-- A postfixed operand, before what is neither an operator after an operand nor an arrow. -/
theorem settles_expression_postfixed (htarget : IsPostfixed i target)
    (hend : Precedence.afterOperand? l.kind = none) (hlambda : l.kind ≠ .lambda)
    {tier : Precedence} (htier : tier.rank ≤ Precedence.stepBefore.rank) :
    Settles n (fun fuel => (ofFuel fuel).expressionFrom tier) (i ++ l :: o) (l :: o)
      (· = target) :=
  settles_expressionFrom
    (htarget.settles htier hlambda (.stop (Precedence.stopsAt_of_none hend hlambda)))

/-- With `t` read, a turn at `+=` reads the operand and puts `t` on both sides. -/
theorem settles_compoundTurn (h : Kind.Stepping step assignment operator amount)
    (hend : Precedence.afterOperand? l.kind = none) (hlambda : l.kind ≠ .lambda) :
    Settles n (fun fuel => (ofFuel fuel).operatorTurn .assignment target)
      (.mark assignment :: .number 1 :: l :: o) (l :: o)
      (· = .again (target.compound operator)) := by
  have hone : Settles n (fun fuel => (ofFuel fuel).expressionFrom .conditional)
      (.number 1 :: l :: o) (l :: o) (· = .literal (.number 1)) :=
    settles_expression_postfixed (.atom (.number 1)) hend hlambda (by decide)
  have hfound : Precedence.afterOperand? assignment = some .assignment := by cases h <;> rfl
  have hassign : assignment.assignOperator? = some operator := by cases h <;> rfl
  refine settles_operatorTurn hfound (Nat.le_refl _) fun token hkind => ?_
  unfold Grammar.extend
  have hkind : token.kind = assignment := hkind
  rw [hkind, hassign]
  exact hone.bindEq (.pure rfl)

/-- Both forms are read from the lexemes of the target. -/
theorem Kind.Stepping.reads (h : Kind.Stepping step assignment operator amount)
    (htarget : IsPostfixed i target) (hend : Precedence.afterOperand? l.kind = none)
    (hlambda : l.kind ≠ .lambda) :
    Reads n n Parser.expression (i ++ .mark assignment :: .number 1 :: l :: o) (l :: o)
        (· = target.compound operator) ∧
      Reads n n Parser.expression (.mark step :: (i ++ l :: o)) (l :: o)
        (· = .step step true target) ∧
      Reads n n Parser.expression (i ++ .mark step :: l :: o) (l :: o)
        (· = .step step false target) := by
  have hisStep : step.isStep = true := by cases h <;> rfl
  have hstops : ∀ tier : Precedence, tier.stopsAt l.kind = true :=
    fun _ => Precedence.stopsAt_of_none hend hlambda
  have hassign : (Lexeme.mark assignment).kind ≠ .lambda := by cases h <;> decide
  have hentry : ∀ {j e}, Settles n (fun fuel => (ofFuel fuel).operation .assignment) j (l :: o)
      (· = e) → Reads n n Parser.expression j (l :: o) (· = e) :=
    fun hsettles =>
      (steady_expressionFrom .assignment).settles_iff.1 (settles_expressionFrom hsettles)
  refine ⟨hentry ?compound, hentry ?before, hentry ?after⟩
  case compound =>
    exact htarget.settles (by decide) hassign
      (.again (settles_compoundTurn h hend hlambda) (.stop (hstops _)))
  case before =>
    exact (IsOperand.step hisStep (.postfixed htarget)).settles (by decide) (hstops _)
      (.stop (hstops _))
  case after =>
    have hafter : Settles n (fun fuel => (ofFuel fuel).operation .assignment)
        ((i ++ [.mark step]) ++ l :: o) (l :: o) (· = .step step false target) :=
      (IsPostfixed.part htarget (.step hisStep)).settles (by decide) hlambda (.stop (hstops _))
    rwa [List.append_assoc] at hafter

end Reading

/-! ## Both together -/

/-- **Stepping is assigning.**  `t += 1` is read as `t = t + 1`, and on any machine `++t` does the
    same for every target `t` of names, constants and index expressions: it leaves the same heap and
    gives the same number, the next one modulo 2 ^ 64, or both fail and leave the heap as it was.
    `t++` has the effect of `++t` and gives the number that was there.  So it is for `--` and
    `-=`. -/
theorem Kind.Stepping.is_compound {step assignment operator : Kind} {amount : Int}
    {target : Expression} (h : Kind.Stepping step assignment operator amount)
    (hplain : target.IsPlain) :
    (∀ n i l o, Parser.IsPostfixed i target → Precedence.afterOperand? l.kind = none →
      l.kind ≠ .lambda →
        Parser.Reads n n Parser.expression (i ++ .mark assignment :: .number 1 :: l :: o) (l :: o)
            (· = target.compound operator) ∧
          Parser.Reads n n Parser.expression (.mark step :: (i ++ l :: o)) (l :: o)
            (· = .step step true target) ∧
          Parser.Reads n n Parser.expression (i ++ .mark step :: l :: o) (l :: o)
            (· = .step step false target)) ∧
    ∀ m n, target.levels + 2 ≤ n →
      SteppedAlike m (Evaluator.ofFuel n) step operator amount target := by
  refine ⟨fun n i l o => h.reads, fun m n hn => ?_⟩
  have hpos := target.levels_pos
  obtain ⟨n, rfl⟩ : ∃ k, n = k + 3 := ⟨n - 3, by omega⟩
  cases hisPlace : target.isPlace with
  | true => exact Evaluator.steppedAlike_place h hplain hisPlace m (by omega)
  | false =>
    cases hplain with
    | literal value => exact Evaluator.steppedAlike_literal h value m n
    | _ => cases hisPlace

/-- The name `a` is bound to an array of the largest number. -/
def Machine.brimming : Machine :=
  let m := Machine.start {} .unlimited
  let (heap, array) := m.heap.addArray (.ofElements #[.number Int64.maxValue])
  match Store.define m.root "a" (.array array) heap with
  | .ok _ heap | .error _ heap => { m with heap }

/-- `++a[0]` wraps around, and so does `a[0] += 1`. -/
theorem Kind.Stepping.is_compound_wrapping :
    ∃ next, (Evaluator.ofFuel 4).evaluate
        (Expression.compound .plus (.index (.name "a") (.literal (.number 0)))) Machine.brimming =
          .ok (.number Int64.minValue) next ∧
      next.heap.arrays.get? ⟨0, 0⟩ = some ⟨#[.number Int64.minValue], []⟩ := by
  have hplain : (Expression.index (.name "a") (.literal (.number 0))).IsPlain :=
    .index (.name "a") (.literal (.number 0))
  have halike := (Kind.Stepping.is_compound .up hplain).2 Machine.brimming 4 (by decide)
  let x := (Evaluator.ofFuel 4).evaluate
    (.step .increment true (.index (.name "a") (.literal (.number 0))))
  have hstep : x Machine.brimming = .ok (.number Int64.minValue) (x.reached Machine.brimming) :=
    Eval.apply_of_outcome_ok (by cbv)
  have hstored : (x.reached Machine.brimming).heap.arrays.get? ⟨0, 0⟩ =
      some ⟨#[.number Int64.minValue], []⟩ := by cbv
  cases halike with
  | stepped old new heap _ _ before compound _ =>
    obtain ⟨_, next, hbefore, hnext, rfl⟩ := before _ (.refl _)
    obtain ⟨hvalue, hreached⟩ : Value.number Int64.minValue = .number new ∧
        x.reached Machine.brimming = next := by
      injection hstep.symm.trans hbefore with hvalue hreached
      exact ⟨hvalue, hreached⟩
    obtain ⟨_, last, hcompound, hlast, rfl⟩ := compound _ (.refl _)
    refine ⟨last, hcompound.trans (congrArg (EStateM.Result.ok · last) hvalue.symm), ?_⟩
    rw [hlast.heap_eq, ← hstored, hreached, hnext.heap_eq]
  | failed e e' before _ _ _ =>
    obtain ⟨_, hbefore, -⟩ := before _ (.refl _)
    cases hstep.symm.trans hbefore

end Tao
