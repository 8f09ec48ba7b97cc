/-
  The values that scripts compute with.

  Objects and arrays live on the heap and a value only refers to them; a function refers to the
  scope it was made in.  Functions and methods taken from a receiver are told apart by a STAMP, a
  number that is given out once: two such values are the same only if one is a copy of the other.
-/
import Tao.Tree
import Tao.Heap.Handle

namespace Tao

/-! ## Types -/

/-- The run-time types. -/
inductive ValueType where
  | nil | boolean | number | string | object | array | function | builtin | maker
  deriving DecidableEq, Repr

/-- How messages name a type. -/
def ValueType.name : ValueType → String
  | nil => "nil"
  | boolean => "boolean"
  | number => "number"
  | string => "string"
  | object => "object"
  | array => "array"
  | function => "function"
  | builtin => "builtin"
  | maker => "class"

/-! ## Methods and other built-in functions -/

/-- The methods of arrays. -/
inductive ArrayMethod where
  | push | pop | join | each | map | filter
  /-- Another name of `filter`. -/
  | filterWhere
  | find | reduce
  deriving DecidableEq, Repr

namespace ArrayMethod

/-- The name a method is called by. -/
def name : ArrayMethod → String
  | push => "push"
  | pop => "pop"
  | join => "join"
  | each => "each"
  | map => "map"
  | filter => "filter"
  | filterWhere => "where"
  | find => "find"
  | reduce => "reduce"

/-- Every method of arrays. -/
def all : List ArrayMethod :=
  [push, pop, join, each, map, filter, filterWhere, find, reduce]

/-- The method of a given name. -/
def ofName? (name : String) : Option ArrayMethod := all.find? (·.name = name)

end ArrayMethod

/-- The methods of strings. -/
inductive StringMethod where
  | len | lower | upper
  deriving DecidableEq, Repr

namespace StringMethod

/-- The name a method is called by. -/
def name : StringMethod → String
  | len => "len"
  | lower => "lower"
  | upper => "upper"

/-- Every method of strings. -/
def all : List StringMethod := [len, lower, upper]

/-- The method of a given name. -/
def ofName? (name : String) : Option StringMethod := all.find? (·.name = name)

end StringMethod

/-- The built-in functions.  A method carries the receiver it was taken from and its stamp. -/
inductive Builtin where
  | print
  | println
  | len
  | arrayMethod (stamp : Nat) (method : ArrayMethod) (receiver : ArrayId)
  | stringMethod (stamp : Nat) (method : StringMethod) (receiver : String)
  deriving DecidableEq, Repr

/-- The name of a built-in function. -/
def Builtin.name : Builtin → String
  | print => "print"
  | println => "println"
  | len => "len"
  | arrayMethod _ method _ => method.name
  | stringMethod _ method _ => method.name

/-- What `new` can make. -/
inductive Maker where
  | object
  | array
  deriving DecidableEq, Repr

/-- The name of what `new` makes. -/
def Maker.name : Maker → String
  | object => "Object"
  | array => "Array"

/-! ## Values -/

/-- A function as written, together with the scope it was made in. -/
structure Closure where
  stamp : Nat
  code : FunctionCode
  scope : ScopeId

/-- The name of a function, or what stands for a missing one. -/
def Closure.name (closure : Closure) : String := closure.code.name.getD "<anonymous>"

/-- Values. -/
inductive Value where
  | nil
  | boolean (value : Bool)
  | number (value : Int64)
  | string (value : String)
  | object (id : ObjectId)
  | array (id : ArrayId)
  | function (closure : Closure)
  | builtin (builtin : Builtin)
  | maker (maker : Maker)
  deriving Inhabited

namespace Value

/-- The type of a value. -/
def type : Value → ValueType
  | nil => .nil
  | boolean _ => .boolean
  | number _ => .number
  | string _ => .string
  | object _ => .object
  | array _ => .array
  | function _ => .function
  | builtin _ => .builtin
  | maker _ => .maker

/-- Are two values the same?  Those of different types never are; containers and functions are only
    if they are one and the same. -/
def same : Value → Value → Bool
  | nil, nil => true
  | boolean a, boolean b => a = b
  | number a, number b => a = b
  | string a, string b => a = b
  | object a, object b => a = b
  | array a, array b => a = b
  | function a, function b => a.stamp = b.stamp
  | builtin a, builtin b => a = b
  | maker a, maker b => a = b
  | _, _ => false

end Value

/-- The value of a constant. -/
def Literal.toValue : Literal → Value
  | .nil => .nil
  | .boolean value => .boolean value
  | .number value => .number value
  | .string value => .string value

end Tao
