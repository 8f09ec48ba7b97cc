/-
  Names and the scopes that bind them.

  A name seen from a scope belongs to the nearest scope outward that binds it.  Reading a name that
  no scope binds falls back to the global object, as bound to `global` in the outermost scope;
  assigning to such a name is an error.  Scopes do not enclose themselves, so a walk outward takes
  at most one step for each slot of the heap.
-/
import Tao.Heap.Basic

namespace Tao

/-- Where a walk outward through the scopes, in search of a name, ended. -/
inductive Resolution where
  /-- The nearest scope that binds the name, and the value it binds it to. -/
  | bound (owner : ScopeId) (value : Value)
  /-- No scope binds the name; this is the outermost one. -/
  | unbound (outermost : Scope)
  /-- A scope's parent is gone. -/
  | stale (id : ScopeId)
  /-- The walk took more steps than there are slots. -/
  | endless

namespace Heap

/-- Walks outward from a scope to the nearest one that binds `name`, for at most `steps` scopes. -/
def resolveWithin (heap : Heap) (name : String) : Nat → ScopeId → Resolution
  | 0, _ => .endless
  | steps + 1, id =>
    match heap.scopes.get? id with
    | none => .stale id
    | some scope =>
      match scope.get? name with
      | some value => .bound id value
      | none =>
        match scope.parent with
        | some parent => heap.resolveWithin name steps parent
        | none => .unbound scope

/-- The scope that `name` belongs to as seen from a scope. -/
def resolve (heap : Heap) (id : ScopeId) (name : String) : Resolution :=
  heap.resolveWithin name (heap.scopes.slots.size + 1) id

/-- The property of the global object that an unbound name stands for.  Which object is the global
    one is decided by the binding of `global` in the outermost scope. -/
def globalProp (heap : Heap) (outermost : Scope) (name : String) :
    Except RuntimeError (Option Value) :=
  match outermost.get? Scope.globalName with
  | some (.object global) => do return (← heap.object global).props.get? name
  | some other => .error (.globalNotObject other.type)
  | none => .ok none

/-- The value of a name as seen from a scope, if it has one. -/
def lookup (heap : Heap) (id : ScopeId) (name : String) : Except RuntimeError (Option Value) :=
  match heap.resolve id name with
  | .bound _ value => .ok (some value)
  | .unbound outermost => heap.globalProp outermost name
  | .stale id => .error (.staleHandle .scope id)
  | .endless => .ok none

/-- The value of a name bound in this very scope. -/
def lookupHere (heap : Heap) (id : ScopeId) (name : String) :
    Except RuntimeError (Option Value) := do
  return (← heap.scope id).get? name

/-- The value of a name that must have one. -/
def valueOf (heap : Heap) (id : ScopeId) (name : String) : Except RuntimeError Value := do
  match ← heap.lookup id name with
  | some value => return value
  | none => .error (.undefinedName name)

end Heap

namespace Store

/-- Binds a name in a scope that does not bind it yet. -/
def define (id : ScopeId) (name : String) (value : Value) : Store Unit := do
  let _ ← read fun heap => do (← heap.scope id).define name value
  modify (·.modifyScope id fun scope =>
    { scope with bindings := scope.bindings ++ [(name, value)] })

/-- The scope whose binding of a name an assignment changes. -/
def assignmentOwner (id : ScopeId) (name : String) (heap : Heap) : Except RuntimeError ScopeId :=
  match heap.resolve id name with
  | .bound owner _ => .ok owner
  | .unbound _ | .endless => .error (.undefinedTarget name)
  | .stale id => .error (.staleHandle .scope id)

/-- Changes the nearest binding of a name as seen from a scope. -/
def assign (id : ScopeId) (name : String) (value : Value) : Store Unit := do
  let owner ← read (assignmentOwner id name)
  modify (·.modifyScope owner fun scope =>
    { scope with bindings := Scope.rebind name value scope.bindings })

end Store

end Tao
