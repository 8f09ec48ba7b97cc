/-
  What the slots of the heap hold: scopes, objects and arrays.

  Properties are kept in the order of their keys (by code points, which is also the order of their
  UTF-8 bytes).  A scope keeps its bindings in the order of their definition and carries the two
  signals by which `break` and `return` leave blocks.
-/
import Tao.RuntimeError

namespace Tao

/-! ## Properties -/

/-- Values under string keys, in increasing order of the keys. -/
abbrev Props := List (String × Value)

namespace Props

/-- The value under a key. -/
def get? (props : Props) (key : String) : Option Value := props.lookup key

/-- Puts a value under a key, in place of the one that was there. -/
def set (key : String) (value : Value) : Props → Props
  | [] => [(key, value)]
  | (k, v) :: rest =>
    if key < k then (key, value) :: (k, v) :: rest
    else if key = k then (key, value) :: rest
    else (k, v) :: set key value rest

end Props

/-- An object: its properties. -/
structure ObjectCell where
  props : Props
  deriving Inhabited

/-- The object without properties. -/
def ObjectCell.empty : ObjectCell := ⟨[]⟩

/-! ## Arrays -/

/-- An array: its elements, and properties beside them that are no elements. -/
structure ArrayCell where
  elements : Array Value
  props : Props
  deriving Inhabited

namespace ArrayCell

/-- The array of these elements. -/
def ofElements (elements : Array Value) : ArrayCell := ⟨elements, []⟩

/-- The place of an index, or the error of its being out of range. -/
def place (cell : ArrayCell) (index : Int64) : Except RuntimeError Nat :=
  if index.toInt < 0 || cell.elements.size ≤ index.toInt.toNat then
    .error (.indexOutOfRange index cell.elements.size)
  else .ok index.toInt.toNat

/-- The element at an index. -/
def get (cell : ArrayCell) (index : Int64) : Except RuntimeError Value := do
  let place ← cell.place index
  return cell.elements.getD place .nil

end ArrayCell

/-! ## Scopes -/

/-- A lexical scope: its bindings in the order of their definition, the scope around it, and the
    signals raised in it. -/
structure Scope where
  bindings : List (String × Value)
  parent : Option ScopeId
  /-- Was a `break` executed here? -/
  broke : Bool
  /-- The value of a `return` executed here. -/
  returned : Option Value
  deriving Inhabited

namespace Scope

/-- The name that the global object is bound to in the outermost scope. -/
def globalName : String := "global"

/-- A scope without bindings inside of `parent`. -/
def inside (parent : Option ScopeId) : Scope := ⟨[], parent, false, none⟩

/-- The outermost scope, which binds the global object and nothing else. -/
def outermost (global : ObjectId) : Scope :=
  ⟨[(globalName, .object global)], none, false, none⟩

/-- The value of a name bound in this very scope. -/
def get? (scope : Scope) (name : String) : Option Value := scope.bindings.lookup name

/-- Binds a name that is not bound here yet. -/
def define (scope : Scope) (name : String) (value : Value) : Except RuntimeError Scope :=
  if (scope.get? name).isSome then .error (.alreadyDefined name)
  else .ok { scope with bindings := scope.bindings ++ [(name, value)] }

/-- Changes the first binding of a name. -/
def rebind (name : String) (value : Value) : List (String × Value) → List (String × Value)
  | [] => []
  | (bound, old) :: rest =>
    if name = bound then (bound, value) :: rest else (bound, old) :: rebind name value rest

/-- Was `break` or `return` executed here? -/
def signalled (scope : Scope) : Bool := scope.broke || scope.returned.isSome

/-- The scope with its signals taken down. -/
def withoutSignals (scope : Scope) : Scope := { scope with broke := false, returned := none }

/-- Every value that the scope keeps alive: those of its bindings, then the returned one. -/
def values (scope : Scope) : List Value :=
  scope.bindings.map Prod.snd ++ scope.returned.toList

end Scope

end Tao
