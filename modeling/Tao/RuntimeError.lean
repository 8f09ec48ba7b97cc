/-
  What can go wrong while a script runs.

  Every cause has one constructor; `RuntimeError.category` sorts the causes into the classes that a
  user sees, and `RuntimeError.message` holds all the wording.
-/
import Tao.SyntaxError
import Tao.Value

namespace Tao

/-- The ways in which a run fails. -/
inductive RuntimeError where
  /-- An operator applied to operands that it is not defined for. -/
  | unsupportedOperator (operator : Kind) (left right : ValueType)
  -- names
  | undefinedName (name : String)
  | alreadyDefined (name : String)
  | undefinedTarget (name : String)
  -- types
  | globalNotObject (type : ValueType)
  | badOperand (operator : Kind) (type : ValueType)
  | badStepTarget (operator : Kind) (type : ValueType)
  | divisionByZero
  | moduloByZero
  | exponentOutOfRange (exponent : Int64)
  | negativeShift (count : Int64)
  | lenOf (type : ValueType)
  | lenOfNothing
  | arraySizeType (type : ValueType)
  | separatorType (type : ValueType)
  /-- A method that wants a function was called without arguments. -/
  | missingFunction (method : ArrayMethod)
  | notCallable (type : ValueType)
  | notIndexable (type : ValueType)
  | notAssignable (target : String)
  | badKey (type : ValueType)
  -- ranges
  | indexOutOfRange (index : Int64) (length : Nat)
  | negativeArraySize (size : Int64)
  | arrayTooLarge (size : Int64) (limit : Nat)
  -- resources
  | callsTooDeep (limit : Nat)
  | sinkFull
  | flushFailed
  | staleHandle (kind : CellKind) (handle : Handle kind)
  deriving DecidableEq, Repr

/-- The classes of errors. -/
inductive ErrorCategory where
  | badSyntax | badName | badType | notCallable | notIndexable | notAssignable | badRange | badKey
  | recursion | io | internal
  deriving DecidableEq, Repr

/-- The name of a class of errors. -/
def ErrorCategory.name : ErrorCategory → String
  | badSyntax => "SyntaxError"
  | badName => "NameError"
  | badType => "TypeError"
  | notCallable => "NotCallableError"
  | notIndexable => "NotIndexableError"
  | notAssignable => "NotAssignableError"
  | badRange => "RangeError"
  | badKey => "KeyTypeError"
  | recursion => "RecursionError"
  | io => "IOError"
  | internal => "InternalError"

namespace RuntimeError

/-- The class of an error. -/
def category : RuntimeError → ErrorCategory
  | unsupportedOperator .. => .badSyntax
  | undefinedName _ | alreadyDefined _ | undefinedTarget _ => .badName
  | globalNotObject _ | badOperand .. | badStepTarget .. | divisionByZero | moduloByZero
  | exponentOutOfRange _ | negativeShift _ | lenOf _ | lenOfNothing | arraySizeType _
  | separatorType _ | missingFunction _ => .badType
  | notCallable _ => .notCallable
  | notIndexable _ => .notIndexable
  | notAssignable _ => .notAssignable
  | indexOutOfRange .. | negativeArraySize _ | arrayTooLarge .. => .badRange
  | badKey _ => .badKey
  | callsTooDeep _ => .recursion
  | sinkFull | flushFailed => .io
  | staleHandle .. => .internal

/-- What went wrong, in words. -/
def detail : RuntimeError → String
  | unsupportedOperator operator left right =>
    s!"unsupported operator `{operator.spelling}' for operand types {left.name} and {right.name}"
  | undefinedName name => s!"`{name}' is not defined"
  | alreadyDefined name => s!"`{name}' is already defined"
  | undefinedTarget name => s!"cannot assign to undefined `{name}'"
  | globalNotObject type => s!"`global' must be an object, not {type.name}"
  | badOperand operator type => s!"bad operand type for unary `{operator.spelling}': {type.name}"
  | badStepTarget operator type => s!"bad operand type for `{operator.spelling}': {type.name}"
  | divisionByZero => "division by zero"
  | moduloByZero => "modulo by zero"
  | exponentOutOfRange exponent => s!"exponent {exponent.toInt} out of range"
  | negativeShift count => s!"negative shift count {count.toInt}"
  | lenOf type => s!"len() takes a string, array or object, not {type.name}"
  | lenOfNothing => "len() takes one argument"
  | arraySizeType type => s!"array size must be a number, not {type.name}"
  | separatorType type => s!"join() separator must be a string, not {type.name}"
  | missingFunction method => s!"{method.name}() takes a function"
  | notCallable type => s!"{type.name} is not callable"
  | notIndexable type => s!"{type.name} is not indexable"
  | notAssignable target => s!"{target} is not assignable"
  | badKey type => s!"cannot use {type.name} as key"
  | indexOutOfRange index length => s!"index {index.toInt} out of range [0, {length})"
  | negativeArraySize size => s!"negative array size {size.toInt}"
  | arrayTooLarge size limit => s!"array size {size.toInt} exceeds {limit}"
  | callsTooDeep limit => s!"maximum call depth of {limit} exceeded"
  | sinkFull => "sink is full"
  | flushFailed => "flush failed"
  | staleHandle kind handle => s!"stale {kind.name} handle {handle.text}"

/-- The full text of an error. -/
def message (e : RuntimeError) : String := e.category.name ++ ": " ++ e.detail

end RuntimeError

/-! ## Errors of either kind -/

/-- An error in the text of a script or in its run. -/
inductive Error where
  | text (error : SyntaxError)
  | run (error : RuntimeError)
  deriving DecidableEq, Repr

namespace Error

/-- The class of an error. -/
def category : Error → ErrorCategory
  | text _ => .badSyntax
  | run error => error.category

/-- The full text of an error. -/
def message : Error → String
  | text error => error.message
  | run error => error.message

end Error

end Tao
