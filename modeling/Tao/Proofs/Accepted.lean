/-
  What running relies on parsing for.

  A function that is called binds its parameters one after another, which fails if two of them are
  the same; and the evaluator meets unary operators that it does not know.  Neither happens in a
  run of a script that was parsed, because what is parsed is well formed and code is never made
  anew: every function that is called, and every expression in it, stands in a script that was run.
-/
import Mathlib
import Tao.Proofs.Control.Stacks
import Tao.Proofs.Evaluator.Params
import Tao.Proofs.Lockstep.Code
import Tao.Proofs.Parser.Accepted

namespace Tao

/-! ## Failures that parsing rules out -/

/-- Does this call fail to bind parameters? -/
def Value.Refuses (arguments : List Value) : Value → Prop
  | .function closure => ∃ e, Evaluator.bindParams (.inside (some closure.scope))
      closure.code.params arguments = .error e
  | _ => False

/-- Does this expression put an operator that is unknown there before a number? -/
def Expression.IsUnsupported : Expression → Prop
  | .unary operator _ => operator ≠ .not ∧ ∃ n, applyUnary operator (.number n) =
      .error (.unsupportedOperator operator .number .number)
  | _ => False

/-- The watch that raises the alarm at either of them. -/
noncomputable def Watch.accepting (alarm : Halt RuntimeError) (w : Watch) : Watch :=
  open scoped Classical in
  { w with
    evaluate := fun expression x =>
      if expression.IsUnsupported then throw alarm else w.evaluate expression x
    call := fun callee arguments x =>
      if callee.Refuses arguments then throw alarm else w.call callee arguments x }

/-- The parameters of a legal function can be bound. -/
theorem Value.not_refuses {stamp : Nat} {code : FunctionCode} {scope : ScopeId}
    (h : code.Everywhere .legal) (arguments : List Value) :
    ¬ (Value.function ⟨stamp, code, scope⟩).Refuses arguments := by
  rintro ⟨e, hfails⟩
  have hcode : code.IsLegal := (FunctionCode.everywhere_iff.1 h).1
  have hunbound : ∀ x ∈ code.params, (Scope.inside (some scope)).get? x = none := fun _ _ => rfl
  obtain ⟨bound, hbound⟩ := Evaluator.exists_bindParams hcode.distinct hunbound arguments
  rw [hbound] at hfails
  cases hfails

/-- Only operators that are known there stand before the operand of a legal expression. -/
theorem Expression.not_isUnsupported {e : Expression} (h : e.Everywhere .legal) :
    ¬ e.IsUnsupported := by
  cases e with
  | unary operator operand =>
    rintro ⟨hnot, n, hfails⟩
    have hprefix : operator.isPrefix = true := h.1
    cases operator with
    | not => exact hnot rfl
    | plus | minus | bitXor => cases hfails
    | _ => cases hprefix
  | _ => exact id

namespace Coded

/-! ## Runs -/

variable {shape : Shape} {m : Machine}

open scoped Classical in
/-- On a machine whose code is legal the watch has nothing to do. -/
theorem agree_accepting (alarm : Halt RuntimeError) (due : Machine → Bool) :
    Watch.Agree (Regime.coded .legal) (.idle due) (.accepting alarm (.idle due)) where
  pause hs := by
    obtain ⟨m, rfl, h⟩ := sound_iff.1 hs
    exact steps_collectWhen due h
  evaluate {j e x y} _ he h := by
    have hwatched : (Watch.accepting alarm (.idle due)).evaluate e y = y :=
      if_neg (Expression.not_isUnsupported he)
    rw [hwatched]
    exact h
  execute _ _ h := h
  call {j u v us vs x y} _ hcallable h := by
    have hwatched : (Watch.accepting alarm (.idle due)).call v vs y = y := by
      refine if_neg ?_
      have halike : Value.Alike .legal j.pairing u v := hcallable.callee
      cases halike with
      | function hcode _ => exact Value.not_refuses hcode vs
      | _ => exact id
    rw [hwatched]
    exact h (.inl trivial)
  callBack _ _ h := h (.inl trivial)

/-- Two runs that finish in this regime finish in the same way, and leave the code as it was. -/
theorem of_finishes {k k' : Evaluator} {x y : Eval Value} {m' : Machine}
    (h : (Regime.coded shape).Finishes k k' (x m) (y m')) :
    y m' = x m ∧ (x.reached m).heap.HasCode shape := by
  unfold Eval.reached
  generalize x m = r at h
  generalize y m' = s at h
  cases h with
  | ok sound alike =>
    obtain ⟨n, rfl, hcode⟩ := sound_iff.1 sound
    have hsame := Diagonal.eq_of_alike (D := .coded shape) alike
    subst hsame
    exact ⟨rfl, hcode⟩
  | error _ fault =>
    obtain ⟨rfl, hcode⟩ := fault
    exact ⟨rfl, hcode⟩
  | left excused => exact (excused.elim id fun ⟨_, _, h, _⟩ => h).elim
  | right excused => exact (excused.elim id fun ⟨_, _, h, _⟩ => h).elim

/-- A new machine holds no code at all. -/
theorem hasCode_start (shape : Shape) (config : Config) (sink : Sink) :
    (Machine.start config sink).heap.HasCode shape :=
  (Diagonal.holds_start (Diagonal.lawful_coded shape) config sink).toStores

end Coded

namespace Program

variable {program : Program} {m : Machine}

/-- A run of a well-formed script, where all code is legal. -/
theorem WellFormed.run_accepting (h : program.WellFormed) (hcode : m.heap.HasCode .legal)
    (fuel : Nat) (alarm : Halt RuntimeError) :
    program.runWatched (.accepting alarm (.idle Machine.hasGrown)) fuel m = program.run fuel m ∧
      ((program.run fuel).reached m).heap.HasCode .legal := by
  have hfinishes := Regime.finishes (Coded.signalling .legal)
    (Coded.agree_accepting alarm Machine.hasGrown)
    (.inl ⟨rfl, trivial⟩ : Regime.SameBound _ fuel fuel) h.legal (Coded.sound_of_hasCode hcode)
  have hrun : program.runWatched (.idle Machine.hasGrown) fuel = program.run fuel :=
    program.runWhen_hasGrown fuel
  rw [hrun] at hfinishes
  exact Coded.of_finishes hfinishes

/-- Induction on the scripts that are run. -/
theorem hasCode_afterRuns {programs : List Program} (hprograms : ∀ p ∈ programs, p.WellFormed)
    (hcode : m.heap.HasCode .legal) (fuel : Nat) :
    (m.afterRuns fuel programs).heap.HasCode .legal := by
  induction programs generalizing m with
  | nil => exact hcode
  | cons p rest ih =>
    obtain ⟨hp, hrest⟩ := List.forall_mem_cons.1 hprograms
    exact ih hrest (hp.run_accepting hcode fuel .outOfFuel).2

/-- **Whatever is parsed is well formed, and running relies on it.**  In a run of a script that was
    parsed, on a new machine or after any runs of others, binding the parameters of a function never
    fails, and no unary operator is ever found to be unknown. -/
theorem accepted_wellFormed {text : String} (h : parse text = .ok program) :
    program.WellFormed ∧
    ∀ config sink fuel earlier, (∀ p ∈ earlier, ∃ text, parse text = .ok p) → ∀ alarm,
      program.runWatched (.accepting alarm (.idle Machine.hasGrown)) fuel
          ((Machine.start config sink).afterRuns fuel earlier) =
        program.run fuel ((Machine.start config sink).afterRuns fuel earlier) := by
  have hprogram : program.WellFormed := wellFormed_of_parse h
  refine ⟨hprogram, fun config sink fuel earlier hearlier alarm => ?_⟩
  have hwellFormed : ∀ p ∈ earlier, p.WellFormed := fun p hp =>
    wellFormed_iff_exists_parse.2 (hearlier p hp)
  exact (hprogram.run_accepting (hasCode_afterRuns hwellFormed
    (Coded.hasCode_start .legal config sink) fuel) fuel alarm).1

/-- `function main() { return (function (x) { return -x; })(1); }` -/
def negating : Program :=
  ⟨[.function ⟨some "main", [],
    [.giveBack (some (.call
      (.function ⟨none, ["x"], [.giveBack (some (.unary .minus (.name "x")))]⟩)
      [.literal (.number 1)]))]⟩]⟩

/-- All its names and operators are legal. -/
theorem wellFormed_negating : negating.WellFormed := by
  have hx : IsName "x" := by decide
  have hmain : IsName "main" := by decide
  have hone : (0 : Int64) ≤ 1 := by decide
  have hinner :
      FunctionCode.IsLegal ⟨none, ["x"], [.giveBack (some (.unary .minus (.name "x")))]⟩ :=
    ⟨nofun, List.forall_mem_singleton.2 hx, List.nodup_singleton _, by rintro (h | h) <;> exact h⟩
  have hbody : Statement.Everywhere .legal (.giveBack (some (.call
      (.function ⟨none, ["x"], [.giveBack (some (.unary .minus (.name "x")))]⟩)
      [.literal (.number 1)]))) :=
    ⟨trivial, trivial, ⟨hinner, ⟨trivial, rfl, hx⟩, trivial⟩, hone, trivial⟩
  refine ⟨⟨⟨rfl, ⟨?_, nofun, .nil, ?_⟩, hbody, trivial⟩, trivial⟩, ?_⟩
  · exact fun x hname => Option.some.inj hname ▸ hmain
  · rintro (h | h) <;> exact h
  · exact List.forall_mem_singleton.2 trivial

/-- It is parsed, and a run of it negates a parameter that was bound without an alarm. -/
theorem accepted_wellFormed_negating :
    parse negating.canonicalText = .ok negating ∧ negating.WellFormed ∧
    ∃ n, negating.run 9 (.start {} .unlimited) = .ok (.number (-1)) n ∧
      ∀ alarm, negating.runWatched (.accepting alarm (.idle Machine.hasGrown)) 9
        (.start {} .unlimited) = .ok (.number (-1)) n := by
  have hparse : parse negating.canonicalText = .ok negating := wellFormed_negating.parse_canonical
  obtain ⟨hwellFormed, hruns⟩ := accepted_wellFormed hparse
  have hrun : ∀ alarm, negating.runWatched (.accepting alarm (.idle Machine.hasGrown)) 9
      (.start {} .unlimited) = negating.run 9 (.start {} .unlimited) :=
    hruns {} .unlimited 9 [] fun _ hp => absurd hp List.not_mem_nil
  have hresult : negating.run 9 (.start {} .unlimited) = .ok (.number (-1)) _ :=
    Eval.apply_of_outcome_ok (by cbv)
  exact ⟨hparse, hwellFormed, _, hresult, fun alarm => (hrun alarm).trans hresult⟩

end Program

end Tao
