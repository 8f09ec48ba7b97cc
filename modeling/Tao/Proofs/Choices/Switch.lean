/-
  A switch runs one body.

  1. **Reading** — the tree of a switch keeps its groups in source order and its default apart,
     wherever the default stands among them (`Statement.ofArms`).

  2. **Selecting** — the subject is evaluated, then the labels of all groups in that order, up to
     the first that is the same value; its body runs, or the default one if there is no such label.

  3. **Comparing** — values of different types are never the same, and identity is not disturbed
     (`Undisturbed`): the subject is held, so what is made while labels are evaluated is made where
     the subject is known, and is none of what is known there.
-/
import Tao.Evaluator.Fuel
import Tao.Proofs.Callbacks.Methods
import Tao.Proofs.Choices.Arms
import Tao.Proofs.Choices.Rooted
import Tao.Proofs.Choices.Selected

namespace Tao

/-- The labels of an arm, each with its body. -/
def Arm.labelled : Arm → List (Expression × List Statement)
  | .group labels body => labels.map (·, body)
  | .default _ => []

/-- The labels of the groups are those of all arms in source order. -/
theorem CaseGroup.labelled_filterMap (arms : List Arm) :
    labelled (arms.filterMap Arm.group?) = arms.flatMap Arm.labelled := by
  induction arms with
  | nil => rfl
  | cons arm arms ih =>
    rw [List.flatMap_cons, ← ih]
    cases arm <;> rfl

namespace Evaluator

variable {m now : Machine} {value : Value} {labels : List Expression} {n : Nat}

/-- What is held is still held and known when labels have been missed. -/
theorem Misses.knows (h : (ofFuel n).Misses value labels m now) (hheld : value ∈ m.held)
    (hknows : m.heap.Knows value m.stamps) :
    value ∈ now.held ∧ now.heap.Knows value now.stamps := by
  induction h with
  | none m => exact ⟨hheld, hknows⟩
  | more evaluates _ _ ih =>
    obtain ⟨hheld, hknows⟩ := knows_of_evaluate hheld hknows evaluates
    exact ih hheld hknows

/-- The identity of a subject from when it was evaluated until a label matches or none is left. -/
structure Undisturbed (n : Nat) (subject : Value) (start : Machine) : Prop where
  /-- No collection in the meantime loses the subject. -/
  throughout : ∀ groups alarm,
    (watched (.doing (Eval.collectSparing subject alarm) Eval.write) n).chosenGroup subject groups
      start = (ofFuel n).chosenGroup subject groups start
  /-- It is known whenever it is compared with a label. -/
  compared : ∀ labels label now found next, (ofFuel n).Misses subject labels start now →
    (ofFuel n).evaluate label now = .ok found next → next.heap.Knows subject next.stamps
  /-- Whatever is made where it is known is something else. -/
  others : ∀ (now : Machine) made, now.heap.Knows subject now.stamps → now.Makes made →
    made.same subject = false

/-- A subject that was evaluated is held, so nothing disturbs its identity. -/
theorem undisturbed_of_evaluate {subject : Expression} {start : Machine} (hwf : m.heap.WellFormed)
    (hsubject : (ofFuel n).evaluate subject m = .ok value start)
    (hknown : value.isKnown start.heap start.stamps = true) : Undisturbed n value start := by
  have hspares := spares_evaluate hwf n subject
  rw [Eval.reached_of_ok hsubject] at hspares
  have hheld := mem_held_of_evaluate hsubject
  have hknows : start.heap.Knows value start.stamps := ⟨hspares.wellFormed, hknown⟩
  refine ⟨fun groups alarm => chosenGroup_sparing hheld hknows n value groups alarm, ?_, ?_⟩
  · intro labels label now found next hmisses hlabel
    obtain ⟨hheld, hknows⟩ := hmisses.knows hheld hknows
    exact (knows_of_evaluate hheld hknows hlabel).2
  · intro now made hknows hmakes
    exact hmakes.not_same hknows.1 hknows.2

end Evaluator

/-- Values of different types are never the same. -/
theorem Value.same_eq_false_of_type {u v : Value} (h : u.type ≠ v.type) : u.same v = false := by
  cases u <;> cases v <;> first | rfl | exact absurd rfl h

/-- **A switch runs one body.**  A switch that is read keeps its arms in source order but for the
    default, of which there is at most one.  Whatever evaluates and executes its parts, it evaluates
    the subject once and then label after label, up to the first that is the same value; the body of
    that arm runs, the default one if there is none such, or none, and what fails before that ends
    the switch.  The body runs in a new scope inside of the active one.  Values of different types
    are not the same, and no collection while labels are evaluated changes what the subject is. -/
theorem Statement.choose_runs_one :
    (∀ (g : Grammar) p statement q, g.choice p = .ok statement q →
      ∃ subject arms, g.ReadsSwitch subject arms p q ∧ (arms.filterMap Arm.default?).length ≤ 1 ∧
        statement = .ofArms subject arms) ∧
    (∀ (k : Evaluator) subject arms m r, k.perform (.ofArms subject arms) m = r ↔
      k.Selects subject (arms.flatMap Arm.labelled) (arms.findSome? Arm.default?) m r) ∧
    (∀ n subject arms, (Evaluator.ofFuel (n + 1)).execute (.ofArms subject arms) =
      Eval.lettingGo ((Evaluator.ofFuel n).perform (.ofArms subject arms))) ∧
    (∀ (k : Evaluator) body (m : Machine), m.heap.WellFormed →
      ∃ child heap, k.RunsInChild body m child heap) ∧
    (∀ u v : Value, u.type ≠ v.type → u.same v = false) ∧
    ∀ n subject (m : Machine) value start, m.heap.WellFormed →
      (Evaluator.ofFuel n).evaluate subject m = .ok value start →
      value.isKnown start.heap start.stamps = true → Evaluator.Undisturbed n value start := by
  refine ⟨fun g p statement q => Grammar.choice_ok, fun k subject arms m r => ?_,
    fun n subject arms => Evaluator.execute_succ n _,
    fun k body m => Evaluator.exists_runsInChild k body,
    fun u v => Value.same_eq_false_of_type,
    fun n subject m value start => Evaluator.undisturbed_of_evaluate⟩
  rw [← CaseGroup.labelled_filterMap]
  exact Evaluator.runChoice_eq_iff

/-- After `switch`: the default stands first, and the first label is a string. -/
theorem Statement.choose_runs_one_default_first :
    (∃ subject arms after, (Grammar.ofFuel 9).ReadsSwitch subject arms
        (.ofText "1 \x7b default: case \"1\", 1: \x7d") after ∧
      Statement.ofArms subject arms = .choose (.literal (.number 1))
        [.mk [.literal (.string "1"), .literal (.number 1)] []] (some [])) ∧
    (Value.string "1").same (.number 1) = false ∧
    (∃ child heap, (Evaluator.ofFuel 2).RunsInChild [] (.start {} .unlimited) child heap) ∧
    ∃ start, (Evaluator.ofFuel 2).evaluate (.object []) (.start {} .unlimited) =
        .ok (.object ⟨1, 0⟩) start ∧ Evaluator.Undisturbed 2 (.object ⟨1, 0⟩) start := by
  obtain ⟨hreads, -, -, hbody, htype, hidentity⟩ := Statement.choose_runs_one
  have hread : (Grammar.ofFuel 9).choice (.ofText "1 \x7b default: case \"1\", 1: \x7d") =
      .ok (.choose (.literal (.number 1))
        [.mk [.literal (.string "1"), .literal (.number 1)] []] (some []))
        ⟨⟨⟨[], ⟨1, 28⟩⟩, []⟩, 0⟩ := by cbv
  obtain ⟨subject, arms, harms, -, hstatement⟩ := hreads _ _ _ _ hread
  have hwf : (Machine.start {} .unlimited).heap.WellFormed := by
    unfold Machine.start Heap.addGlobal
    exact (Heap.wellFormed_empty.addObject _).addScope _
  let x := (Evaluator.ofFuel 2).evaluate (.object [])
  have hobject : x (.start {} .unlimited) =
      .ok (.object ⟨1, 0⟩) (x.reached (.start {} .unlimited)) :=
    Eval.apply_of_outcome_ok (by cbv)
  refine ⟨⟨subject, arms, _, harms, hstatement.symm⟩, htype _ _ (by decide), hbody _ _ _ hwf, _,
    hobject, ?_⟩
  exact hidentity 2 _ _ _ _ hwf hobject (by cbv)

end Tao
