/-
  The syntax trees of scripts.

  A script is a list of statements.  Operators in a tree are token kinds; which kinds occur where is
  decided by the parser.  `a.b` and `a["b"]` have the same tree, and so have `x += e` and
  `x = x + e`.
-/
import Tao.Kind

namespace Tao

/-- A constant written in a script. -/
inductive Literal where
  | nil
  | boolean (value : Bool)
  | number (value : Int64)
  | string (value : String)
  deriving DecidableEq, Repr

mutual

/-- Expressions. -/
inductive Expression where
  | literal (value : Literal)
  | name (text : String)
  | unary (operator : Kind) (operand : Expression)
  /-- `++` or `--`, before or after the target. -/
  | step (operator : Kind) (before : Bool) (target : Expression)
  | binary (operator : Kind) (left right : Expression)
  | conditional (condition thenValue elseValue : Expression)
  | construct (maker : Expression) (arguments : List Expression)
  | assign (target value : Expression)
  | function (code : FunctionCode)
  | index (target key : Expression)
  | call (callee : Expression) (arguments : List Expression)
  | object (entries : List Entry)
  | array (elements : List Expression)

/-- A function or lambda as written: its name, if it has one, its parameters and its body. -/
inductive FunctionCode where
  | mk (name : Option String) (params : List String) (body : List Statement)

/-- One `key: value` of an object literal. -/
inductive Entry where
  | mk (key : String) (value : Expression)

/-- Statements. -/
inductive Statement where
  | empty
  | define (name : String) (initializer : Option Expression)
  | function (code : FunctionCode)
  | giveBack (value : Option Expression)
  | block (body : List Statement)
  | expression (value : Expression)
  | loop (init : Option Statement) (test increment : Option Expression) (body : List Statement)
  | leave
  /-- The other branch is a block or a further conditional. -/
  | branch (condition : Expression) (thenBody : List Statement) (otherwise : Option Statement)
  | choose (subject : Expression) (groups : List CaseGroup) (otherwise : Option (List Statement))

/-- The labels of a case and the body they lead to. -/
inductive CaseGroup where
  | mk (labels : List Expression) (body : List Statement)

end

deriving instance Inhabited for Literal
instance : Inhabited Expression := ⟨.literal .nil⟩
instance : Inhabited Statement := ⟨.empty⟩

namespace FunctionCode

/-- The name a function is written with, if any. -/
def name : FunctionCode → Option String
  | mk name _ _ => name

/-- The parameters of a function. -/
def params : FunctionCode → List String
  | mk _ params _ => params

/-- The statements of a function. -/
def body : FunctionCode → List Statement
  | mk _ _ body => body

end FunctionCode

/-- May this expression stand left of `=`?  Only names and index expressions can be stored to. -/
def Expression.isPlace : Expression → Bool
  | .name _ | .index _ _ => true
  | _ => false

/-- A script: its statements outside of every function. -/
structure Program where
  statements : List Statement

end Tao
