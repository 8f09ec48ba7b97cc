/-
  Collecting garbage.

  A collection marks every cell that can be reached from the roots and frees the rest.  What a cell
  refers to is given by `Heap.references`: a scope refers to the scope around it and to its values,
  an object to its properties, an array to its elements and its properties; a value refers to the
  object or array it is, to the scope it was made in, or to its receiver.  Stale handles lead
  nowhere.

  Marking keeps a list of handles still to be followed.  Every turn either marks one more cell or
  drops a handle from the list, which is why it ends.
-/
import Tao.Heap.Basic

namespace Tao

/-- A reference to a cell of any kind. -/
inductive Node where
  | scope (id : ScopeId)
  | object (id : ObjectId)
  | array (id : ArrayId)
  deriving DecidableEq, Repr

/-- The cell that a value refers to by itself, if any. -/
def Value.references : Value → List Node
  | .object id => [.object id]
  | .array id => [.array id]
  | .function closure => [.scope closure.scope]
  | .builtin (.arrayMethod _ _ receiver) => [.array receiver]
  | .builtin _ | .nil | .boolean _ | .number _ | .string _ | .maker _ => []

/-- The cells that a scope refers to. -/
def Scope.references (scope : Scope) : List Node :=
  scope.parent.toList.map .scope ++ scope.values.flatMap Value.references

/-- The cells that an object refers to. -/
def ObjectCell.references (cell : ObjectCell) : List Node :=
  cell.props.flatMap (·.2.references)

/-- The cells that an array refers to. -/
def ArrayCell.references (cell : ArrayCell) : List Node :=
  cell.elements.toList.flatMap Value.references ++ cell.props.flatMap (·.2.references)

/-- Which slots hold reachable cells, as far as is known. -/
structure Marks where
  scopes : Array Bool
  objects : Array Bool
  arrays : Array Bool

namespace Marks

/-- Nothing is marked. -/
def none (heap : Heap) : Marks :=
  ⟨.replicate heap.scopes.slots.size false, .replicate heap.objects.slots.size false,
    .replicate heap.arrays.slots.size false⟩

/-- How many slots are not marked. -/
def unmarked (marks : Marks) : Nat :=
  marks.scopes.count false + marks.objects.count false + marks.arrays.count false

/-- Is the slot of this node there and not marked? -/
def isUnmarked (marks : Marks) : Node → Bool
  | .scope id => marks.scopes[id.index]? = some false
  | .object id => marks.objects[id.index]? = some false
  | .array id => marks.arrays[id.index]? = some false

/-- Marks the slot of a node. -/
def mark (marks : Marks) : Node → Marks
  | .scope id => { marks with scopes := marks.scopes.setIfInBounds id.index true }
  | .object id => { marks with objects := marks.objects.setIfInBounds id.index true }
  | .array id => { marks with arrays := marks.arrays.setIfInBounds id.index true }

/-- Setting a bit that was not set leaves one fewer to be set. -/
theorem count_setIfInBounds {bits : Array Bool} {i : Nat} (h : bits[i]? = some false) :
    (bits.setIfInBounds i true).count false < bits.count false := by
  obtain ⟨hi, hv⟩ := Array.getElem?_eq_some_iff.1 h
  have hpos : 0 < bits.count false := Array.count_pos_iff.2 (hv ▸ Array.getElem_mem hi)
  rw [Array.setIfInBounds, dif_pos hi, Array.count_set, hv]
  show bits.count false - 1 + 0 < bits.count false
  omega

/-- Marking an unmarked slot leaves one fewer. -/
theorem unmarked_mark {marks : Marks} {node : Node} (h : marks.isUnmarked node) :
    (marks.mark node).unmarked < marks.unmarked := by
  cases node <;> simp only [isUnmarked, decide_eq_true_eq] at h <;>
    have := count_setIfInBounds h <;> simp only [unmarked, mark] <;> omega

end Marks

namespace Heap

/-- What the cell of a node refers to; `none` if the handle is stale. -/
def references (heap : Heap) : Node → Option (List Node)
  | .scope id => (heap.scopes.get? id).map Scope.references
  | .object id => (heap.objects.get? id).map ObjectCell.references
  | .array id => (heap.arrays.get? id).map ArrayCell.references

/-- Marks everything that can be reached from the pending nodes. -/
def markFrom (heap : Heap) (marks : Marks) : List Node → Marks
  | [] => marks
  | node :: pending =>
    match heap.references node with
    | none => heap.markFrom marks pending
    | some references =>
      if _ : marks.isUnmarked node then
        heap.markFrom (marks.mark node) (references ++ pending)
      else heap.markFrom marks pending
  termination_by pending => (marks.unmarked, pending.length)
  decreasing_by
    · exact Prod.Lex.right _ (Nat.lt_succ_self _)
    · exact Prod.Lex.left _ _ (Marks.unmarked_mark ‹_›)
    · exact Prod.Lex.right _ (Nat.lt_succ_self _)

/-- The slots that can be reached from root scopes and root values. -/
def reachable (heap : Heap) (scopes : List ScopeId) (values : List Value) : Marks :=
  heap.markFrom (.none heap) (scopes.map .scope ++ values.flatMap Value.references)

/-- Frees every cell that cannot be reached from the roots, and counts those it freed. -/
def collect (heap : Heap) (scopes : List ScopeId) (values : List Value) : Heap × Nat :=
  let marks := heap.reachable scopes values
  let (scopes, freedScopes) := heap.scopes.sweep marks.scopes
  let (objects, freedObjects) := heap.objects.sweep marks.objects
  let (arrays, freedArrays) := heap.arrays.sweep marks.arrays
  (⟨scopes, objects, arrays⟩, freedScopes + freedObjects + freedArrays)

end Heap

end Tao
