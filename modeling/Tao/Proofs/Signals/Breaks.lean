/-
  Where a `break` may stand.

  A `break` belongs to the innermost loop or choice around it.  A statement BREAKS if it holds a
  `break` that belongs to none of its own: executing it may then end the loop or the choice that the
  statement stands in.

  A tree is TIDY if no function breaks and every loop begins with a definition, if with anything.
  Scripts that are parsed are tidy.
-/
import Mathlib.Data.List.Basic
import Tao.Proofs.Tree

namespace Tao

mutual

/-- Does a statement hold a `break` that is not inside of an inner loop, choice or function? -/
def Statement.Breaks : Statement → Prop
  | .leave => True
  | .block body => Statement.AnyBreaks body
  | .branch _ thenBody otherwise => Statement.AnyBreaks thenBody ∨ Statement.Breaks? otherwise
  | .empty | .define .. | .function _ | .giveBack _ | .expression _ | .loop .. | .choose .. => False

/-- Does one of these statements break? -/
def Statement.AnyBreaks : List Statement → Prop
  | [] => False
  | s :: rest => s.Breaks ∨ Statement.AnyBreaks rest

/-- Is there a statement, and does it break? -/
def Statement.Breaks? : Option Statement → Prop
  | none => False
  | some s => s.Breaks

end

/-- Is this a definition, a function or an empty statement?  These may stand outside of functions,
    and a definition may be the first clause of a loop. -/
def Statement.IsDefinition : Statement → Prop
  | .empty | .define .. | .function _ => True
  | .giveBack _ | .block _ | .expression _ | .loop .. | .leave | .branch .. | .choose .. => False

/-- No function breaks, and loops begin with definitions. -/
def Shape.tidy : Shape where
  statement
    | .loop (some init) _ _ _ => init.IsDefinition
    | _ => True
  expression
    | .function code => ¬ Statement.AnyBreaks code.body
    | _ => True

/-- A script in which a `break` ends a loop or a choice of its own function, and no statement
    outside of a function does anything but define. -/
structure Program.IsTidy (program : Program) : Prop where
  tidy : Statement.AllEverywhere .tidy program.statements
  definitions : ∀ s ∈ program.statements, s.IsDefinition

namespace Statement

variable {s : Statement} {body : List Statement}

/-- A definition never breaks. -/
theorem not_breaks_of_isDefinition (h : s.IsDefinition) : ¬ s.Breaks := by
  cases s with
  | empty | define _ _ | function _ => exact id
  | _ => exact h.elim

theorem anyBreaks_iff : AnyBreaks body ↔ ∃ s ∈ body, s.Breaks := by
  induction body with
  | nil => exact ⟨False.elim, fun ⟨_, h, _⟩ => absurd h List.not_mem_nil⟩
  | cons s rest ih => exact Iff.trans (or_congr_right ih) (List.exists_mem_cons_iff ..).symm

end Statement

end Tao
