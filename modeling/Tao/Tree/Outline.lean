/-
  Outlines of trees.

  The outline of a tree is its text as nested lists in parentheses, as in `(* (- 123) (+ 45 6))`:
  the operator or the kind of node first, its parts after it, separated by single spaces.  String
  constants are quoted, the keys of objects are not.
-/
import Tao.Tree
import Tao.Text.Quoted

namespace Tao

/-- The text of a constant. -/
def Literal.outline : Literal → String
  | .nil => "nil"
  | .boolean value => toString value
  | .number value => toString value.toInt
  | .string value => Text.quoted value

mutual

/-- The outline of an expression. -/
def Expression.outline : Expression → String
  | .literal value => value.outline
  | .name text => text
  | .unary operator operand => "(" ++ operator.spelling ++ " " ++ operand.outline ++ ")"
  | .step operator true target => "(pre" ++ operator.spelling ++ " " ++ target.outline ++ ")"
  | .step operator false target => "(post" ++ operator.spelling ++ " " ++ target.outline ++ ")"
  | .binary operator left right =>
    "(" ++ operator.spelling ++ " " ++ left.outline ++ " " ++ right.outline ++ ")"
  | .conditional condition thenValue elseValue =>
    "(?: " ++ condition.outline ++ " " ++ thenValue.outline ++ " " ++ elseValue.outline ++ ")"
  | .construct maker arguments => "(new " ++ maker.outline ++ Expression.outlines arguments ++ ")"
  | .assign target value => "(= " ++ target.outline ++ " " ++ value.outline ++ ")"
  | .function code => code.outline
  | .index target key => "(index " ++ target.outline ++ " " ++ key.outline ++ ")"
  | .call callee arguments => "(call " ++ callee.outline ++ Expression.outlines arguments ++ ")"
  | .object entries => "(object" ++ Entry.outlines entries ++ ")"
  | .array elements => "(array" ++ Expression.outlines elements ++ ")"

/-- The outlines of expressions, a space before each. -/
def Expression.outlines : List Expression → String
  | [] => ""
  | e :: rest => " " ++ e.outline ++ Expression.outlines rest

/-- The outline of a function; a missing name is shown as an underscore. -/
def FunctionCode.outline : FunctionCode → String
  | .mk name params body =>
    "(function " ++ name.getD "_" ++ " (" ++ " ".intercalate params ++ ") (block"
      ++ Statement.outlines body ++ "))"

/-- The outlines of the entries of an object, a space before each. -/
def Entry.outlines : List Entry → String
  | [] => ""
  | .mk key value :: rest => " (" ++ key ++ " " ++ value.outline ++ ")" ++ Entry.outlines rest

/-- The outline of a statement. -/
def Statement.outline : Statement → String
  | .empty => "(;)"
  | .define name (some value) => "(let " ++ name ++ " " ++ value.outline ++ ")"
  | .define name none => "(let " ++ name ++ ")"
  | .function code => code.outline
  | .giveBack (some value) => "(return " ++ value.outline ++ ")"
  | .giveBack none => "(return)"
  | .block body => "(block" ++ Statement.outlines body ++ ")"
  | .expression value => value.outline
  | .loop init test increment body =>
    "(for " ++ Statement.outline? init ++ " " ++ Expression.outline? test ++ " "
      ++ Expression.outline? increment ++ " (block" ++ Statement.outlines body ++ "))"
  | .leave => "(break)"
  | .branch condition thenBody none =>
    "(if " ++ condition.outline ++ " (block" ++ Statement.outlines thenBody ++ "))"
  | .branch condition thenBody (some otherwise) =>
    "(if " ++ condition.outline ++ " (block" ++ Statement.outlines thenBody ++ ") "
      ++ otherwise.outline ++ ")"
  | .choose subject groups none =>
    "(switch " ++ subject.outline ++ CaseGroup.outlines groups ++ ")"
  | .choose subject groups (some otherwise) =>
    "(switch " ++ subject.outline ++ CaseGroup.outlines groups ++ " (default (block"
      ++ Statement.outlines otherwise ++ ")))"

/-- The outlines of statements, a space before each. -/
def Statement.outlines : List Statement → String
  | [] => ""
  | s :: rest => " " ++ s.outline ++ Statement.outlines rest

/-- The outlines of the groups of a choice, a space before each. -/
def CaseGroup.outlines : List CaseGroup → String
  | [] => ""
  | .mk labels body :: rest =>
    " (case (" ++ Expression.outlineList labels ++ ") (block" ++ Statement.outlines body ++ "))"
      ++ CaseGroup.outlines rest

/-- The outlines of expressions, separated by spaces. -/
def Expression.outlineList : List Expression → String
  | [] => ""
  | e :: rest => e.outline ++ Expression.outlines rest

/-- The outline of an expression that may be missing. -/
def Expression.outline? : Option Expression → String
  | some e => e.outline
  | none => "_"

/-- The outline of a statement that may be missing. -/
def Statement.outline? : Option Statement → String
  | some s => s.outline
  | none => "_"

end

/-- The outline of a script: one line for each statement. -/
def Program.outline (program : Program) : String :=
  "\n".intercalate (program.statements.map Statement.outline)

end Tao
