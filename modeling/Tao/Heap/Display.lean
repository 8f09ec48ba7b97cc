/-
  The text of a value.

  Strings are shown raw by themselves and quoted inside of a container.  The parts of a container
  are shown between brackets, in order, without blanks.  A container met again inside of itself is
  shown as three dots, so the containers open at any place are all different, and that is why the
  text is finite.
-/
import Tao.Heap.Basic
import Tao.Text.Quoted

namespace Tao

/-- A reference to something that has parts to show. -/
inductive Container where
  | object (id : ObjectId)
  | array (id : ArrayId)
  deriving DecidableEq, Repr

namespace Arena

variable {kind : CellKind} {α : Type}

/-- The handle of the occupant of a slot. -/
def handleAt? (arena : Arena kind α) (index : Nat) : Option (Handle kind) :=
  match arena.slots[index]? with
  | some slot => if slot.value.isSome then some ⟨index, slot.generation⟩ else none
  | none => none

/-- The handles of all occupied slots. -/
def handles (arena : Arena kind α) : List (Handle kind) :=
  (List.range arena.slots.size).filterMap arena.handleAt?

/-- A handle that resolves is the handle of an occupied slot. -/
theorem mem_handles {arena : Arena kind α} {handle : Handle kind} {value : α}
    (h : arena.get? handle = some value) : handle ∈ arena.handles := by
  unfold get? at h
  split at h
  case h_1 slot hslot =>
    split at h
    case isTrue hgen =>
      refine List.mem_filterMap.2 ⟨handle.index, ?_, ?_⟩
      · exact List.mem_range.2 (Array.getElem?_eq_some_iff.1 hslot).1
      · simp only [handleAt?, hslot, h, Option.isSome_some, if_true, hgen]
    case isFalse => cases h
  case h_2 => cases h

end Arena

namespace Heap

/-- All objects and arrays of the heap. -/
def containers (heap : Heap) : List Container :=
  heap.objects.handles.map .object ++ heap.arrays.handles.map .array

/-- How many containers are not open. -/
def closed (heap : Heap) (opened : List Container) : Nat :=
  heap.containers.countP (· ∉ opened)

/-- Opening one more container of the heap leaves fewer closed. -/
theorem closed_cons {heap : Heap} {opened : List Container} {c : Container}
    (hmem : c ∈ heap.containers) (hnew : c ∉ opened) :
    heap.closed (c :: opened) < heap.closed opened := by
  unfold closed
  generalize heap.containers = containers at hmem
  induction containers with
  | nil => cases hmem
  | cons d rest ih =>
    have hle : rest.countP (· ∉ c :: opened) ≤ rest.countP (· ∉ opened) :=
      List.countP_mono_left fun x _ hx => by
        simp only [decide_eq_true_eq, List.mem_cons, not_or] at hx ⊢
        exact hx.2
    rw [List.countP_cons, List.countP_cons]
    by_cases hd : d = c
    · simp only [hd, List.mem_cons, true_or, not_true_eq_false, decide_false, hnew,
        not_false_eq_true, decide_true, if_true]
      exact Nat.lt_succ_of_le (by simpa [List.mem_cons] using hle)
    · have := ih ((List.mem_cons.1 hmem).resolve_left fun h => hd h.symm)
      simp only [List.mem_cons, hd, false_or] at this ⊢
      omega

/-- An object that can be read is one of the heap's containers, so opening it makes `closed`
    smaller. -/
theorem object_mem_containers {heap : Heap} {id : ObjectId} {cell : ObjectCell}
    (h : heap.object id = .ok cell) : Container.object id ∈ heap.containers := by
  unfold object at h
  split at h
  case h_1 hget =>
    exact List.mem_append_left _ (List.mem_map_of_mem (Arena.mem_handles hget))
  case h_2 => cases h

/-- The same of arrays. -/
theorem array_mem_containers {heap : Heap} {id : ArrayId} {cell : ArrayCell}
    (h : heap.array id = .ok cell) : Container.array id ∈ heap.containers := by
  unfold array at h
  split at h
  case h_1 hget =>
    exact List.mem_append_right _ (List.mem_map_of_mem (Arena.mem_handles hget))
  case h_2 => cases h

/-- The text of a value inside of the containers `opened`. -/
def displayIn (heap : Heap) (opened : List Container) (value : Value) :
    Except RuntimeError String :=
  match value with
  | .nil => .ok "nil"
  | .boolean value => .ok (toString value)
  | .number value => .ok (toString value.toInt)
  | .string value => .ok (if opened.isEmpty then value else Text.quoted value)
  | .function closure => .ok s!"function({closure.name})"
  | .builtin builtin => .ok s!"builtin({builtin.name})"
  | .maker maker => .ok s!"class({maker.name})"
  | .array id =>
    if _ : .array id ∈ opened then .ok "[...]"
    else
      match _ : heap.array id with
      | .error e => .error e
      | .ok cell => do
        let parts ← cell.elements.toList.mapM fun element =>
          heap.displayIn (.array id :: opened) element
        return "[" ++ ",".intercalate parts ++ "]"
  | .object id =>
    if _ : .object id ∈ opened then .ok "\x7b...\x7d"
    else
      match _ : heap.object id with
      | .error e => .error e
      | .ok cell => do
        let parts ← cell.props.mapM fun (key, value) => do
          return key ++ ":" ++ (← heap.displayIn (.object id :: opened) value)
        return "\x7b" ++ ",".intercalate parts ++ "\x7d"
  termination_by heap.closed opened
  decreasing_by
    · exact closed_cons (array_mem_containers ‹_›) ‹_›
    · exact closed_cons (object_mem_containers ‹_›) ‹_›

/-- The text of a value. -/
def display (heap : Heap) (value : Value) : Except RuntimeError String :=
  heap.displayIn [] value

/-- Does a value count as true?  Nil, false, zero and everything empty do not. -/
def truthy (heap : Heap) : Value → Except RuntimeError Bool
  | .nil => .ok false
  | .boolean value => .ok value
  | .number value => .ok (value ≠ 0)
  | .string value => .ok (!value.isEmpty)
  | .object id => do return !(← heap.object id).props.isEmpty
  | .array id => do return !(← heap.array id).elements.isEmpty
  | .function _ | .builtin _ | .maker _ => .ok true

end Heap

end Tao
