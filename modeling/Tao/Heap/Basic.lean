/-
  The heap: every scope, object and array of a run.

  Reading or changing a cell through a stale handle is an error that names the handle.
-/
import Tao.Heap.Arena
import Tao.Heap.Cell

namespace Tao

/-- The cells of a run, one arena for each kind. -/
structure Heap where
  scopes : Arena .scope Scope
  objects : Arena .object ObjectCell
  arrays : Arena .array ArrayCell
  deriving Inhabited

namespace Heap

/-- The heap without cells. -/
def empty : Heap := ⟨.empty, .empty, .empty⟩

/-- The number of cells. -/
def live (heap : Heap) : Nat := heap.scopes.live + heap.objects.live + heap.arrays.live

/-! ## Making cells -/

/-- Makes a scope. -/
def addScope (heap : Heap) (scope : Scope) : Heap × ScopeId :=
  match heap with
  | ⟨scopes, objects, arrays⟩ =>
    let (scopes, id) := scopes.insert scope
    (⟨scopes, objects, arrays⟩, id)

/-- Makes an object. -/
def addObject (heap : Heap) (cell : ObjectCell) : Heap × ObjectId :=
  match heap with
  | ⟨scopes, objects, arrays⟩ =>
    let (objects, id) := objects.insert cell
    (⟨scopes, objects, arrays⟩, id)

/-- Makes an array. -/
def addArray (heap : Heap) (cell : ArrayCell) : Heap × ArrayId :=
  match heap with
  | ⟨scopes, objects, arrays⟩ =>
    let (arrays, id) := arrays.insert cell
    (⟨scopes, objects, arrays⟩, id)

/-! ## Reading cells -/

/-- The scope that a handle refers to. -/
def scope (heap : Heap) (id : ScopeId) : Except RuntimeError Scope :=
  match heap.scopes.get? id with
  | some scope => .ok scope
  | none => .error (.staleHandle .scope id)

/-- The object that a handle refers to. -/
def object (heap : Heap) (id : ObjectId) : Except RuntimeError ObjectCell :=
  match heap.objects.get? id with
  | some cell => .ok cell
  | none => .error (.staleHandle .object id)

/-- The array that a handle refers to. -/
def array (heap : Heap) (id : ArrayId) : Except RuntimeError ArrayCell :=
  match heap.arrays.get? id with
  | some cell => .ok cell
  | none => .error (.staleHandle .array id)

variable {heap : Heap}

/-- Reading a scope succeeds exactly when its handle resolves. -/
theorem scope_eq_ok_iff {id : ScopeId} {scope : Scope} :
    heap.scope id = .ok scope ↔ heap.scopes.get? id = some scope := by
  unfold Heap.scope
  cases heap.scopes.get? id <;> simp

/-- Reading an object succeeds exactly when its handle resolves. -/
theorem object_eq_ok_iff {id : ObjectId} {cell : ObjectCell} :
    heap.object id = .ok cell ↔ heap.objects.get? id = some cell := by
  unfold Heap.object
  cases heap.objects.get? id <;> simp

/-- Reading an array succeeds exactly when its handle resolves. -/
theorem array_eq_ok_iff {id : ArrayId} {cell : ArrayCell} :
    heap.array id = .ok cell ↔ heap.arrays.get? id = some cell := by
  unfold Heap.array
  cases heap.arrays.get? id <;> simp

/-! ## Changing cells; a stale handle changes nothing -/

/-- Changes a scope. -/
def modifyScope (heap : Heap) (id : ScopeId) (f : Scope → Scope) : Heap :=
  { heap with scopes := heap.scopes.modify id f }

/-- Changes an object. -/
def modifyObject (heap : Heap) (id : ObjectId) (f : ObjectCell → ObjectCell) : Heap :=
  { heap with objects := heap.objects.modify id f }

/-- Changes an array. -/
def modifyArray (heap : Heap) (id : ArrayId) (f : ArrayCell → ArrayCell) : Heap :=
  { heap with arrays := heap.arrays.modify id f }

end Heap

/-! ## Checked changes -/

/-- Computations on a heap that can fail.  The heap reached is kept in every case. -/
abbrev Store := EStateM RuntimeError Heap

namespace Store

/-- Computes something from the heap without changing it. -/
@[inline] def read {α : Type} (f : Heap → Except RuntimeError α) : Store α := fun heap =>
  match f heap with
  | .ok a => .ok a heap
  | .error e => .error e heap

/-- Puts a value under a key of an object. -/
def putProp (id : ObjectId) (key : String) (value : Value) : Store Unit := do
  let _ ← read (·.object id)
  modify (·.modifyObject id fun cell => { cell with props := Props.set key value cell.props })

/-- Replaces an element of an array. -/
def setElement (id : ArrayId) (index : Int64) (value : Value) : Store Unit := do
  let place ← read fun heap => do (← heap.array id).place index
  modify (·.modifyArray id fun cell =>
    { cell with elements := cell.elements.setIfInBounds place value })

/-- Puts a value under a key beside the elements of an array. -/
def putArrayProp (id : ArrayId) (key : String) (value : Value) : Store Unit := do
  let _ ← read (·.array id)
  modify (·.modifyArray id fun cell => { cell with props := Props.set key value cell.props })

/-- Appends values to an array and gives its new length. -/
def pushElements (id : ArrayId) (values : List Value) : Store Nat := do
  let size ← read fun heap => do return (← heap.array id).elements.size
  modify (·.modifyArray id fun cell => { cell with elements := cell.elements.appendList values })
  return size + values.length

/-- Takes the last element off an array, if it has one. -/
def popElement (id : ArrayId) : Store (Option Value) := do
  let last ← read fun heap => do return (← heap.array id).elements.back?
  modify (·.modifyArray id fun cell => { cell with elements := cell.elements.pop })
  return last

/-- Notes that `return` was executed in a scope. -/
def setReturned (id : ScopeId) (value : Value) : Store Unit := do
  let _ ← read (·.scope id)
  modify (·.modifyScope id fun scope => { scope with returned := some value })

/-- Notes that `break` was executed in a scope. -/
def setBroke (id : ScopeId) : Store Unit := do
  let _ ← read (·.scope id)
  modify (·.modifyScope id fun scope => { scope with broke := true })

/-- Takes the signals of a scope down and gives them: whether it broke, and what it returned. -/
def lowerSignals (id : ScopeId) : Store (Bool × Option Value) := do
  let signals ← read fun heap => do
    let scope ← heap.scope id
    return (scope.broke, scope.returned)
  modify (·.modifyScope id Scope.withoutSignals)
  return signals

end Store

end Tao
