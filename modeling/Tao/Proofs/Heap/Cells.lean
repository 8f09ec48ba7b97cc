/-
  Making and changing cells.

  What the operations on the heap do to what resolves: a new cell adds one handle of one kind, a
  change adds and removes none.  Both leave well-formed heaps well formed.
-/
import Tao.Proofs.Heap.Reach

namespace Tao.Heap

variable {heap : Heap} {node : Node}

/-! ## Reading cells -/

section Read

variable (heap : Heap)

/-- Reading a scope, as a case distinction on what its handle resolves to.  In this form it is
    rewritten by what is known of `get?`. -/
theorem scope_eq_elim (id : ScopeId) :
    heap.scope id = (heap.scopes.get? id).elim (.error (.staleHandle .scope id)) .ok := by
  unfold scope
  cases heap.scopes.get? id <;> rfl

/-- The same of objects. -/
theorem object_eq_elim (id : ObjectId) :
    heap.object id = (heap.objects.get? id).elim (.error (.staleHandle .object id)) .ok := by
  unfold object
  cases heap.objects.get? id <;> rfl

/-- The same of arrays. -/
theorem array_eq_elim (id : ArrayId) :
    heap.array id = (heap.arrays.get? id).elim (.error (.staleHandle .array id)) .ok := by
  unfold array
  cases heap.arrays.get? id <;> rfl

end Read

/-! ## Making cells -/

/-- A new scope leaves a well-formed heap well formed. -/
theorem WellFormed.addScope (h : heap.WellFormed) (s : Scope) : (heap.addScope s).1.WellFormed :=
  ⟨Arena.wellFormed_insert h.scopes s, h.objects, h.arrays⟩

/-- So does a new object. -/
theorem WellFormed.addObject (h : heap.WellFormed) (c : ObjectCell) :
    (heap.addObject c).1.WellFormed :=
  ⟨h.scopes, Arena.wellFormed_insert h.objects c, h.arrays⟩

/-- So does a new array. -/
theorem WellFormed.addArray (h : heap.WellFormed) (c : ArrayCell) :
    (heap.addArray c).1.WellFormed :=
  ⟨h.scopes, h.objects, Arena.wellFormed_insert h.arrays c⟩

/-- A new scope adds its own handle to those of scopes that resolve, and no other. -/
theorem get?_addScope (h : heap.WellFormed) (s : Scope) (id : ScopeId) :
    (heap.addScope s).1.scopes.get? id =
      if id = (heap.addScope s).2 then some s else heap.scopes.get? id :=
  Arena.get?_insert h.scopes s id

/-- The same of a new object. -/
theorem get?_addObject (h : heap.WellFormed) (c : ObjectCell) (id : ObjectId) :
    (heap.addObject c).1.objects.get? id =
      if id = (heap.addObject c).2 then some c else heap.objects.get? id :=
  Arena.get?_insert h.objects c id

/-- The same of a new array. -/
theorem get?_addArray (h : heap.WellFormed) (c : ArrayCell) (id : ArrayId) :
    (heap.addArray c).1.arrays.get? id =
      if id = (heap.addArray c).2 then some c else heap.arrays.get? id :=
  Arena.get?_insert h.arrays c id

/-- Among the nodes of all kinds a new scope adds its own. -/
theorem resolves_addScope (h : heap.WellFormed) (s : Scope) :
    (heap.addScope s).1.Resolves node ↔ node = .scope (heap.addScope s).2 ∨ heap.Resolves node := by
  cases node with
  | scope id =>
    show (∃ t, (heap.addScope s).1.scopes.get? id = some t) ↔ _
    rw [get?_addScope h, Node.scope.injEq]
    by_cases hid : id = (heap.addScope s).2
    · rw [if_pos hid]
      exact ⟨fun _ => .inl hid, fun _ => ⟨s, rfl⟩⟩
    · rw [if_neg hid]
      exact ⟨.inr, fun h => h.resolve_left hid⟩
  | object id => exact ⟨.inr, fun h => h.resolve_left nofun⟩
  | array id => exact ⟨.inr, fun h => h.resolve_left nofun⟩

/-- Among the nodes of all kinds a new object adds its own. -/
theorem resolves_addObject (h : heap.WellFormed) (c : ObjectCell) :
    (heap.addObject c).1.Resolves node ↔
      node = .object (heap.addObject c).2 ∨ heap.Resolves node := by
  cases node with
  | object id =>
    show (∃ t, (heap.addObject c).1.objects.get? id = some t) ↔ _
    rw [get?_addObject h, Node.object.injEq]
    by_cases hid : id = (heap.addObject c).2
    · rw [if_pos hid]
      exact ⟨fun _ => .inl hid, fun _ => ⟨c, rfl⟩⟩
    · rw [if_neg hid]
      exact ⟨.inr, fun h => h.resolve_left hid⟩
  | scope id => exact ⟨.inr, fun h => h.resolve_left nofun⟩
  | array id => exact ⟨.inr, fun h => h.resolve_left nofun⟩

/-- Among the nodes of all kinds a new array adds its own. -/
theorem resolves_addArray (h : heap.WellFormed) (c : ArrayCell) :
    (heap.addArray c).1.Resolves node ↔
      node = .array (heap.addArray c).2 ∨ heap.Resolves node := by
  cases node with
  | array id =>
    show (∃ t, (heap.addArray c).1.arrays.get? id = some t) ↔ _
    rw [get?_addArray h, Node.array.injEq]
    by_cases hid : id = (heap.addArray c).2
    · rw [if_pos hid]
      exact ⟨fun _ => .inl hid, fun _ => ⟨c, rfl⟩⟩
    · rw [if_neg hid]
      exact ⟨.inr, fun h => h.resolve_left hid⟩
  | scope id => exact ⟨.inr, fun h => h.resolve_left nofun⟩
  | object id => exact ⟨.inr, fun h => h.resolve_left nofun⟩

/-! ## Changing cells -/

/-- A change of a scope leaves a well-formed heap well formed. -/
theorem WellFormed.modifyScope (h : heap.WellFormed) (id : ScopeId) (f : Scope → Scope) :
    (heap.modifyScope id f).WellFormed :=
  ⟨Arena.wellFormed_modify h.scopes id f, h.objects, h.arrays⟩

/-- So does a change of an object. -/
theorem WellFormed.modifyObject (h : heap.WellFormed) (id : ObjectId)
    (f : ObjectCell → ObjectCell) : (heap.modifyObject id f).WellFormed :=
  ⟨h.scopes, Arena.wellFormed_modify h.objects id f, h.arrays⟩

/-- So does a change of an array. -/
theorem WellFormed.modifyArray (h : heap.WellFormed) (id : ArrayId)
    (f : ArrayCell → ArrayCell) : (heap.modifyArray id f).WellFormed :=
  ⟨h.scopes, h.objects, Arena.wellFormed_modify h.arrays id f⟩

/-- A change leaves a handle as resolvable as it was. -/
theorem exists_get?_modify {kind : CellKind} {α : Type} (arena : Arena kind α)
    (handle other : Handle kind) (f : α → α) :
    (∃ value, (arena.modify handle f).get? other = some value) ↔
      ∃ value, arena.get? other = some value := by
  rw [Arena.get?_modify]
  by_cases h : other = handle
  · subst h
    rw [if_pos rfl]
    cases arena.get? other with
    | none => exact Iff.rfl
    | some value => exact ⟨fun _ => ⟨value, rfl⟩, fun _ => ⟨f value, rfl⟩⟩
  · rw [if_neg h]

/-- A change of a scope adds and removes no node. -/
theorem resolves_modifyScope {id : ScopeId} {f : Scope → Scope} :
    (heap.modifyScope id f).Resolves node ↔ heap.Resolves node := by
  cases node with
  | scope other => exact exists_get?_modify heap.scopes id other f
  | object other | array other => exact Iff.rfl

/-- Nor does a change of an object. -/
theorem resolves_modifyObject {id : ObjectId} {f : ObjectCell → ObjectCell} :
    (heap.modifyObject id f).Resolves node ↔ heap.Resolves node := by
  cases node with
  | object other => exact exists_get?_modify heap.objects id other f
  | scope other | array other => exact Iff.rfl

/-- Nor does a change of an array. -/
theorem resolves_modifyArray {id : ArrayId} {f : ArrayCell → ArrayCell} :
    (heap.modifyArray id f).Resolves node ↔ heap.Resolves node := by
  cases node with
  | array other => exact exists_get?_modify heap.arrays id other f
  | scope other | object other => exact Iff.rfl

end Tao.Heap
