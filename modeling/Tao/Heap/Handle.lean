/-
  Handles: references into the heap that know when they are out of date.

  A handle names a slot and the generation of the slot's occupant.  When an occupant is freed the
  slot's generation goes up, so the handle of a former occupant never reaches a later one.
-/
namespace Tao

/-- What lives on the heap: scopes, objects and arrays, each in slots of their own. -/
inductive CellKind where
  | scope
  | object
  | array
  deriving DecidableEq, Repr

/-- How messages name a kind of cell. -/
def CellKind.name : CellKind → String
  | scope => "scope"
  | object => "object"
  | array => "array"

/-- A reference to a cell: its slot and the generation of the slot's occupant. -/
structure Handle (kind : CellKind) where
  index : Nat
  generation : UInt32
  deriving DecidableEq, Repr

instance (kind : CellKind) : Inhabited (Handle kind) := ⟨⟨0, 0⟩⟩

/-- How messages show a handle. -/
def Handle.text {kind : CellKind} (handle : Handle kind) : String :=
  s!"#{handle.index}v{handle.generation.toNat}"

/-- A reference to a scope. -/
abbrev ScopeId := Handle .scope

/-- A reference to an object. -/
abbrev ObjectId := Handle .object

/-- A reference to an array. -/
abbrev ArrayId := Handle .array

end Tao
