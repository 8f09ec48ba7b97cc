/-
  Arenas: slots that are reused.

  An arena hands out a handle for every value put into it.  A sweep empties the slots that are not
  marked; an emptied slot is reused by a later insertion, last emptied first, under a generation one
  higher, so handles of swept values stop resolving for good.
-/
import Tao.Heap.Handle

namespace Tao

/-- A place for one value, and how many values it has lost. -/
structure Slot (α : Type) where
  generation : UInt32
  value : Option α

/-- Slots, the indices of the vacant ones (next to be reused first), and the number of occupied
    ones. -/
structure Arena (kind : CellKind) (α : Type) where
  slots : Array (Slot α)
  free : List Nat
  live : Nat

namespace Arena

variable {kind : CellKind} {α : Type}

/-- The arena without slots. -/
def empty : Arena kind α := ⟨#[], [], 0⟩

instance : Inhabited (Arena kind α) := ⟨empty⟩

/-- The value that a handle refers to, unless it is stale. -/
def get? (arena : Arena kind α) (handle : Handle kind) : Option α :=
  match arena.slots[handle.index]? with
  | some slot => if slot.generation = handle.generation then slot.value else none
  | none => none

/-- Puts a value into the slot vacated last, or into a new one. -/
def insert (arena : Arena kind α) (value : α) : Arena kind α × Handle kind :=
  match arena with
  | ⟨slots, index :: free, live⟩ =>
    let generation := match slots[index]? with
      | some slot => slot.generation
      | none => 0
    (⟨slots.modify index fun slot => { slot with value := some value }, free, live + 1⟩,
      ⟨index, generation⟩)
  | ⟨slots, [], live⟩ =>
    let index := slots.size
    (⟨slots.push ⟨0, some value⟩, [], live + 1⟩, ⟨index, 0⟩)

/-- Changes the value that a handle refers to; a stale handle changes nothing. -/
def modify (arena : Arena kind α) (handle : Handle kind) (f : α → α) : Arena kind α :=
  { arena with
    slots := arena.slots.modify handle.index fun slot =>
      if slot.generation = handle.generation then { slot with value := slot.value.map f }
      else slot }

/-- Is this the index of an occupied slot without a mark? -/
def isGarbage (arena : Arena kind α) (marks : Array Bool) (index : Nat) : Bool :=
  match arena.slots[index]? with
  | some slot => slot.value.isSome && !marks.getD index false
  | none => false

/-- The indices of the occupied slots without a mark, in increasing order. -/
def garbage (arena : Arena kind α) (marks : Array Bool) : List Nat :=
  (List.range arena.slots.size).filter (arena.isGarbage marks)

/-- Empties every occupied slot without a mark, in the order of the indices, and counts them. -/
def sweep (arena : Arena kind α) (marks : Array Bool) : Arena kind α × Nat :=
  let garbage := arena.garbage marks
  let slots := garbage.foldl
    (fun slots index => slots.modify index fun slot => ⟨slot.generation + 1, none⟩) arena.slots
  (⟨slots, garbage.reverse ++ arena.free, arena.live - garbage.length⟩, garbage.length)

end Arena

end Tao
