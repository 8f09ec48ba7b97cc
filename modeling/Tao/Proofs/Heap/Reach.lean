/-
  A collection keeps exactly what can be reached.

  1. **Specification** — `Heap.Refers` lists, one constructor for each kind of edge, what a cell
     refers to; `Heap.Reaches` is its closure from root scopes and root values, through handles that
     resolve.  Neither mentions marks, and `references_spec` ties them to the list of references
     that the collector follows.

  2. **Marking** — `markFrom` is read through `Marks.has`.  `has_markFrom_sound` says that whatever
     it marks satisfies every property that the pending nodes have and that edges hand on, hence is
     reachable.  `markFrom_closed` says that what it marks contains the pending nodes and is closed
     under edges, hence contains everything reachable.  Both follow the recursion of `markFrom`.

  3. **Collecting** — `get?_scopes_collect` and its two companions read the collected heap by
     handles: a handle gives what it gave if it was reachable, and nothing otherwise.
     `collect_exact` puts everything together, slot by slot.
-/
import Tao.Heap.Collect
import Tao.Proofs.Heap.Arena

namespace Tao

/-! ## What refers to what -/

/-- The cell that a value refers to by itself. -/
inductive Value.RefersTo : Value → Node → Prop where
  | object (id : ObjectId) : RefersTo (.object id) (.object id)
  | array (id : ArrayId) : RefersTo (.array id) (.array id)
  | closure (closure : Closure) : RefersTo (.function closure) (.scope closure.scope)
  | receiver (stamp : Nat) (method : ArrayMethod) (id : ArrayId) :
    RefersTo (.builtin (.arrayMethod stamp method id)) (.array id)

/-- The list of references of a value has in it what the value refers to. -/
theorem Value.mem_references_iff {value : Value} {node : Node} :
    node ∈ value.references ↔ value.RefersTo node := by
  constructor
  · intro h
    cases value with
    | object id => exact List.mem_singleton.1 h ▸ .object id
    | array id => exact List.mem_singleton.1 h ▸ .array id
    | function closure => exact List.mem_singleton.1 h ▸ .closure closure
    | builtin builtin =>
      cases builtin with
      | arrayMethod stamp method id => exact List.mem_singleton.1 h ▸ .receiver stamp method id
      | print | println | len | stringMethod => exact absurd h List.not_mem_nil
    | nil | boolean | number | string | maker => exact absurd h List.not_mem_nil
  · intro h
    cases h <;> exact List.mem_singleton.2 rfl

namespace Heap

variable {heap : Heap} {scopes : List ScopeId} {values : List Value}

/-- Does the handle of a node resolve? -/
def Resolves (heap : Heap) : Node → Prop
  | .scope id => ∃ scope, heap.scopes.get? id = some scope
  | .object id => ∃ cell, heap.objects.get? id = some cell
  | .array id => ∃ cell, heap.arrays.get? id = some cell

/-- The cell of one node is there and refers to another. -/
inductive Refers (heap : Heap) : Node → Node → Prop where
  | parent {id : ScopeId} {scope : Scope} {parent : ScopeId}
    (here : heap.scopes.get? id = some scope) (edge : scope.parent = some parent) :
    Refers heap (.scope id) (.scope parent)
  | binding {id : ScopeId} {scope : Scope} {name : String} {value : Value} {node : Node}
    (here : heap.scopes.get? id = some scope) (edge : (name, value) ∈ scope.bindings)
    (refers : value.RefersTo node) : Refers heap (.scope id) node
  | returned {id : ScopeId} {scope : Scope} {value : Value} {node : Node}
    (here : heap.scopes.get? id = some scope) (edge : scope.returned = some value)
    (refers : value.RefersTo node) : Refers heap (.scope id) node
  | property {id : ObjectId} {cell : ObjectCell} {key : String} {value : Value} {node : Node}
    (here : heap.objects.get? id = some cell) (edge : (key, value) ∈ cell.props)
    (refers : value.RefersTo node) : Refers heap (.object id) node
  | element {id : ArrayId} {cell : ArrayCell} {value : Value} {node : Node}
    (here : heap.arrays.get? id = some cell) (edge : value ∈ cell.elements.toList)
    (refers : value.RefersTo node) : Refers heap (.array id) node
  | sideProperty {id : ArrayId} {cell : ArrayCell} {key : String} {value : Value} {node : Node}
    (here : heap.arrays.get? id = some cell) (edge : (key, value) ∈ cell.props)
    (refers : value.RefersTo node) : Refers heap (.array id) node

/-- The cell of a node is there and can be reached from root scopes and root values. -/
inductive Reaches (heap : Heap) (scopes : List ScopeId) (values : List Value) : Node → Prop where
  | scope {id : ScopeId} (root : id ∈ scopes) (there : heap.Resolves (.scope id)) :
    Reaches heap scopes values (.scope id)
  | value {value : Value} {node : Node} (root : value ∈ values) (refers : value.RefersTo node)
    (there : heap.Resolves node) : Reaches heap scopes values node
  | step {node next : Node} (reached : Reaches heap scopes values node)
    (edge : heap.Refers node next) (there : heap.Resolves next) : Reaches heap scopes values next

/-- Only cells that are there are reached. -/
theorem Reaches.resolves {node : Node} (h : heap.Reaches scopes values node) :
    heap.Resolves node := by
  cases h with
  | scope _ there => exact there
  | value _ _ there => exact there
  | step _ _ there => exact there

end Heap

/-- A scope refers to its parent and to what its values refer to. -/
theorem Scope.mem_references_iff {scope : Scope} {node : Node} :
    node ∈ scope.references ↔ (∃ parent, scope.parent = some parent ∧ node = .scope parent) ∨
      ∃ value ∈ scope.values, value.RefersTo node := by
  simp only [Scope.references, List.mem_append, List.mem_map, Option.mem_toList,
    List.mem_flatMap, Value.mem_references_iff]
  constructor
  · rintro (⟨parent, hparent, rfl⟩ | h)
    · exact Or.inl ⟨parent, hparent, rfl⟩
    · exact Or.inr h
  · rintro (⟨parent, hparent, rfl⟩ | h)
    · exact Or.inl ⟨parent, hparent, rfl⟩
    · exact Or.inr h

/-- The values of a scope are those that it binds and the one it returned. -/
theorem Scope.mem_values_iff {scope : Scope} {value : Value} :
    value ∈ scope.values ↔
      (∃ name, (name, value) ∈ scope.bindings) ∨ scope.returned = some value := by
  simp [Scope.values, Option.mem_toList]

namespace Heap

variable {heap : Heap} {scopes : List ScopeId} {values : List Value}

/-- What refers to anything is there. -/
theorem Refers.resolves {node next : Node} (h : heap.Refers node next) : heap.Resolves node := by
  cases h with
  | parent here _ | binding here _ _ | returned here _ _ | property here _ _ | element here _ _
  | sideProperty here _ _ => exact ⟨_, here⟩

/-- The references of a scope are the nodes that it refers to. -/
theorem mem_references_scope {id : ScopeId} {scope : Scope} {next : Node}
    (hget : heap.scopes.get? id = some scope) :
    next ∈ scope.references ↔ heap.Refers (.scope id) next := by
  rw [Scope.mem_references_iff]
  constructor
  · rintro (⟨parent, hparent, rfl⟩ | ⟨value, hvalue, hrefers⟩)
    · exact .parent hget hparent
    · rcases Scope.mem_values_iff.1 hvalue with ⟨name, hbound⟩ | hreturned
      · exact .binding hget hbound hrefers
      · exact .returned hget hreturned hrefers
  · intro h
    cases h with
    | parent here edge =>
      obtain rfl : scope = _ := Option.some.inj (hget.symm.trans here)
      exact Or.inl ⟨_, edge, rfl⟩
    | binding here edge hrefers =>
      obtain rfl : scope = _ := Option.some.inj (hget.symm.trans here)
      exact Or.inr ⟨_, Scope.mem_values_iff.2 (Or.inl ⟨_, edge⟩), hrefers⟩
    | returned here edge hrefers =>
      obtain rfl : scope = _ := Option.some.inj (hget.symm.trans here)
      exact Or.inr ⟨_, Scope.mem_values_iff.2 (Or.inr edge), hrefers⟩

/-- The references of an object are the nodes that it refers to. -/
theorem mem_references_object {id : ObjectId} {cell : ObjectCell} {next : Node}
    (hget : heap.objects.get? id = some cell) :
    next ∈ cell.references ↔ heap.Refers (.object id) next := by
  simp only [ObjectCell.references, List.mem_flatMap, Value.mem_references_iff]
  constructor
  · rintro ⟨⟨key, value⟩, hprop, hrefers⟩
    exact .property hget hprop hrefers
  · intro h
    cases h with
    | property here edge hrefers =>
      obtain rfl : cell = _ := Option.some.inj (hget.symm.trans here)
      exact ⟨_, edge, hrefers⟩

/-- The references of an array are the nodes that it refers to. -/
theorem mem_references_array {id : ArrayId} {cell : ArrayCell} {next : Node}
    (hget : heap.arrays.get? id = some cell) :
    next ∈ cell.references ↔ heap.Refers (.array id) next := by
  simp only [ArrayCell.references, List.mem_append, List.mem_flatMap, Value.mem_references_iff]
  constructor
  · rintro (⟨value, helement, hrefers⟩ | ⟨⟨key, value⟩, hprop, hrefers⟩)
    · exact .element hget helement hrefers
    · exact .sideProperty hget hprop hrefers
  · intro h
    cases h with
    | element here edge hrefers =>
      obtain rfl : cell = _ := Option.some.inj (hget.symm.trans here)
      exact Or.inl ⟨_, edge, hrefers⟩
    | sideProperty here edge hrefers =>
      obtain rfl : cell = _ := Option.some.inj (hget.symm.trans here)
      exact Or.inr ⟨_, edge, hrefers⟩

/-- The references of a node that resolves are the nodes that it refers to. -/
theorem references_spec (heap : Heap) (node : Node) :
    match heap.references node with
    | none => ¬heap.Resolves node
    | some references => heap.Resolves node ∧ ∀ next, next ∈ references ↔ heap.Refers node next := by
  cases node with
  | scope id =>
    simp only [references]
    cases hget : heap.scopes.get? id with
    | none =>
      rintro ⟨scope, h⟩
      cases hget.symm.trans h
    | some scope => exact ⟨⟨scope, hget⟩, fun next => mem_references_scope hget⟩
  | object id =>
    simp only [references]
    cases hget : heap.objects.get? id with
    | none =>
      rintro ⟨cell, h⟩
      cases hget.symm.trans h
    | some cell => exact ⟨⟨cell, hget⟩, fun next => mem_references_object hget⟩
  | array id =>
    simp only [references]
    cases hget : heap.arrays.get? id with
    | none =>
      rintro ⟨cell, h⟩
      cases hget.symm.trans h
    | some cell => exact ⟨⟨cell, hget⟩, fun next => mem_references_array hget⟩

end Heap

/-! ## Marks -/

namespace Marks

variable {heap : Heap} {marks : Marks} {node other : Node}

/-- Is the slot of a node marked? -/
def has (marks : Marks) : Node → Bool
  | .scope id => marks.scopes.getD id.index false
  | .object id => marks.objects.getD id.index false
  | .array id => marks.arrays.getD id.index false

/-- The marks have one place for each slot of the heap. -/
structure Fits (marks : Marks) (heap : Heap) : Prop where
  scopes : marks.scopes.size = heap.scopes.slots.size
  objects : marks.objects.size = heap.objects.slots.size
  arrays : marks.arrays.size = heap.arrays.slots.size

/-- The marks that a collection begins with fit the heap. -/
theorem fits_none (heap : Heap) : (Marks.none heap).Fits heap :=
  ⟨Array.size_replicate, Array.size_replicate, Array.size_replicate⟩

/-- Nothing is marked at the beginning. -/
theorem has_none (heap : Heap) (node : Node) : (Marks.none heap).has node = false := by
  cases node <;> simp [has, Marks.none, Array.getElem?_replicate] <;> split <;> rfl

/-- Marking leaves the number of places. -/
theorem Fits.mark (h : marks.Fits heap) (node : Node) : (marks.mark node).Fits heap := by
  cases node with
  | scope id => exact ⟨Array.size_setIfInBounds.trans h.scopes, h.objects, h.arrays⟩
  | object id => exact ⟨h.scopes, Array.size_setIfInBounds.trans h.objects, h.arrays⟩
  | array id => exact ⟨h.scopes, h.objects, Array.size_setIfInBounds.trans h.arrays⟩

theorem getD_setIfInBounds_self {bits : Array Bool} {i : Nat} (h : i < bits.size) :
    (bits.setIfInBounds i true).getD i false = true := by
  simp [h]

/-- A bit that is set after another one was set is that one, or was set before. -/
theorem getD_of_setIfInBounds {bits : Array Bool} {i j : Nat}
    (h : (bits.setIfInBounds i true).getD j false = true) :
    i = j ∨ bits.getD j false = true := by
  by_cases hij : i = j
  · exact Or.inl hij
  · refine Or.inr ?_
    simpa [Array.getElem?_setIfInBounds, hij] using h

/-- Setting one bit takes no other back. -/
theorem getD_setIfInBounds_of {bits : Array Bool} {i j : Nat} (h : bits.getD j false = true) :
    (bits.setIfInBounds i true).getD j false = true := by
  simp only [Array.getD_eq_getD_getElem?] at h ⊢
  rw [Array.getElem?_setIfInBounds]
  split
  · split
    · rfl
    · rename_i hij hlt
      rw [← hij, Array.getElem?_eq_none (by omega)] at h
      cases h
  · exact h

/-- Marking a node marks its slot. -/
theorem has_mark_self (hfits : marks.Fits heap) (h : heap.Resolves node) :
    (marks.mark node).has node = true := by
  cases node with
  | scope id =>
    obtain ⟨scope, hget⟩ := h
    exact getD_setIfInBounds_self
      (hfits.scopes ▸ Arena.lt_size_of_isOccupied (Arena.isOccupied_of_get? hget))
  | object id =>
    obtain ⟨cell, hget⟩ := h
    exact getD_setIfInBounds_self
      (hfits.objects ▸ Arena.lt_size_of_isOccupied (Arena.isOccupied_of_get? hget))
  | array id =>
    obtain ⟨cell, hget⟩ := h
    exact getD_setIfInBounds_self
      (hfits.arrays ▸ Arena.lt_size_of_isOccupied (Arena.isOccupied_of_get? hget))

/-- What was marked stays marked. -/
theorem has_mark_of (h : marks.has other = true) : (marks.mark node).has other = true := by
  cases node <;> cases other <;> first | exact h | exact getD_setIfInBounds_of h

/-- Of the nodes that resolve, marking one marks it and no other: no two of them share a slot. -/
theorem eq_or_has_of_mark (hnode : heap.Resolves node) (hother : heap.Resolves other)
    (h : (marks.mark node).has other = true) : node = other ∨ marks.has other = true := by
  cases node with
  | scope id =>
    cases other with
    | scope id' =>
      refine (getD_of_setIfInBounds h).imp_left fun hindex => ?_
      obtain ⟨_, hget⟩ := hnode
      obtain ⟨_, hget'⟩ := hother
      rw [Arena.eq_of_get?_of_index hget hget' hindex]
    | object id' | array id' => exact Or.inr h
  | object id =>
    cases other with
    | object id' =>
      refine (getD_of_setIfInBounds h).imp_left fun hindex => ?_
      obtain ⟨_, hget⟩ := hnode
      obtain ⟨_, hget'⟩ := hother
      rw [Arena.eq_of_get?_of_index hget hget' hindex]
    | scope id' | array id' => exact Or.inr h
  | array id =>
    cases other with
    | array id' =>
      refine (getD_of_setIfInBounds h).imp_left fun hindex => ?_
      obtain ⟨_, hget⟩ := hnode
      obtain ⟨_, hget'⟩ := hother
      rw [Arena.eq_of_get?_of_index hget hget' hindex]
    | scope id' | object id' => exact Or.inr h

/-- A bit that is there and not clear is set. -/
theorem getD_of_ne_some_false {bits : Array Bool} {i : Nat} (hlt : i < bits.size)
    (h : bits[i]? ≠ some false) : bits.getD i false = true := by
  rw [Array.getElem?_eq_getElem hlt] at h
  simp only [Array.getD_eq_getD_getElem?, Array.getElem?_eq_getElem hlt, Option.getD_some]
  cases hbit : bits[i] with
  | true => rfl
  | false => exact absurd (congrArg some hbit) h

/-- A slot that is there and not unmarked is marked. -/
theorem has_of_not_isUnmarked (hfits : marks.Fits heap) (hnode : heap.Resolves node)
    (h : ¬marks.isUnmarked node = true) : marks.has node = true := by
  cases node with
  | scope id =>
    obtain ⟨_, hget⟩ := hnode
    exact getD_of_ne_some_false
      (hfits.scopes ▸ Arena.lt_size_of_isOccupied (Arena.isOccupied_of_get? hget))
      fun heq => h (decide_eq_true heq)
  | object id =>
    obtain ⟨_, hget⟩ := hnode
    exact getD_of_ne_some_false
      (hfits.objects ▸ Arena.lt_size_of_isOccupied (Arena.isOccupied_of_get? hget))
      fun heq => h (decide_eq_true heq)
  | array id =>
    obtain ⟨_, hget⟩ := hnode
    exact getD_of_ne_some_false
      (hfits.arrays ▸ Arena.lt_size_of_isOccupied (Arena.isOccupied_of_get? hget))
      fun heq => h (decide_eq_true heq)

end Marks

/-! ## Marking -/

namespace Heap

variable {heap : Heap} {scopes : List ScopeId} {values : List Value}

/-- Whatever is marked has every property that was true of what was marked before and of the pending
    nodes, and that references hand on.  Induction on the recursion of `markFrom`. -/
theorem has_markFrom_sound (holds : Node → Prop)
    (hstep : ∀ node next, holds node → heap.Refers node next → heap.Resolves next → holds next)
    (marks : Marks) (pending : List Node) (hfits : marks.Fits heap)
    (hmarks : ∀ node, heap.Resolves node → marks.has node = true → holds node)
    (hpending : ∀ node ∈ pending, heap.Resolves node → holds node) :
    (heap.markFrom marks pending).Fits heap ∧ ∀ node, heap.Resolves node →
      (heap.markFrom marks pending).has node = true → holds node := by
  fun_induction Heap.markFrom heap marks pending with
  | case1 marks => exact ⟨hfits, hmarks⟩
  | case2 marks node pending href ih =>
    exact ih hfits hmarks fun next hnext => hpending next (List.mem_cons_of_mem _ hnext)
  | case3 marks node pending references href _ ih =>
    have hspec := references_spec heap node
    rw [href] at hspec
    have hnode := hpending node List.mem_cons_self hspec.1
    refine ih (hfits.mark node) (fun other hother hhas => ?_) fun next hnext hthere => ?_
    · rcases Marks.eq_or_has_of_mark hspec.1 hother hhas with rfl | hold
      · exact hnode
      · exact hmarks other hother hold
    · rcases List.mem_append.1 hnext with hrefers | hrest
      · exact hstep node next hnode ((hspec.2 next).1 hrefers) hthere
      · exact hpending next (List.mem_cons_of_mem _ hrest) hthere
  | case4 marks node pending references href _ ih =>
    exact ih hfits hmarks fun next hnext => hpending next (List.mem_cons_of_mem _ hnext)

/-- What is marked contains what was marked before and the pending nodes, and contains whatever it
    refers to.  The invariant: what a marked node refers to is marked or pending. -/
theorem markFrom_closed (marks : Marks) (pending : List Node) (hfits : marks.Fits heap)
    (hclosed : ∀ node next, marks.has node = true → heap.Refers node next → heap.Resolves next →
      marks.has next = true ∨ next ∈ pending) :
    (∀ node, marks.has node = true → (heap.markFrom marks pending).has node = true) ∧
      (∀ node ∈ pending, heap.Resolves node →
        (heap.markFrom marks pending).has node = true) ∧
      ∀ node next, heap.Resolves node → (heap.markFrom marks pending).has node = true →
        heap.Refers node next → heap.Resolves next →
        (heap.markFrom marks pending).has next = true := by
  fun_induction Heap.markFrom heap marks pending with
  | case1 marks =>
    refine ⟨fun _ h => h, fun _ h => absurd h List.not_mem_nil, ?_⟩
    intro node next _ hhas hedge hthere
    exact (hclosed node next hhas hedge hthere).resolve_right List.not_mem_nil
  | case2 marks node pending href ih =>
    have hspec := references_spec heap node
    rw [href] at hspec
    obtain ⟨hmarks, hpending, hstep⟩ := ih hfits fun other next hhas hedge hthere =>
      (hclosed other next hhas hedge hthere).imp_right fun hnext =>
        (List.mem_cons.1 hnext).resolve_left (by rintro rfl; exact hspec hthere)
    refine ⟨hmarks, fun other hother hthere => ?_, hstep⟩
    rcases List.mem_cons.1 hother with rfl | hrest
    · exact absurd hthere hspec
    · exact hpending other hrest hthere
  | case3 marks node pending references href _ ih =>
    have hspec := references_spec heap node
    rw [href] at hspec
    have hself := Marks.has_mark_self hfits hspec.1
    obtain ⟨hmarks, hpending, hstep⟩ := ih (hfits.mark node) fun other next hhas hedge hthere => by
      by_cases hold : marks.has other = true
      · rcases hclosed other next hold hedge hthere with hnext | hnext
        · exact Or.inl (Marks.has_mark_of hnext)
        · rcases List.mem_cons.1 hnext with rfl | hrest
          · exact Or.inl hself
          · exact Or.inr (List.mem_append_right _ hrest)
      · -- the one node that is newly marked: its references have become pending
        obtain rfl := (Marks.eq_or_has_of_mark hspec.1 hedge.resolves hhas).resolve_right hold
        exact Or.inr (List.mem_append_left _ ((hspec.2 next).2 hedge))
    refine ⟨fun other h => hmarks other (Marks.has_mark_of h), fun other hother hthere => ?_, hstep⟩
    rcases List.mem_cons.1 hother with rfl | hrest
    · exact hmarks other hself
    · exact hpending other (List.mem_append_right _ hrest) hthere
  | case4 marks node pending references href hmarked ih =>
    have hspec := references_spec heap node
    rw [href] at hspec
    have hself := Marks.has_of_not_isUnmarked hfits hspec.1 hmarked
    obtain ⟨hmarks, hpending, hstep⟩ := ih hfits fun other next hhas hedge hthere => by
      rcases hclosed other next hhas hedge hthere with hnext | hnext
      · exact Or.inl hnext
      · rcases List.mem_cons.1 hnext with rfl | hrest
        · exact Or.inl hself
        · exact Or.inr hrest
    refine ⟨hmarks, fun other hother hthere => ?_, hstep⟩
    rcases List.mem_cons.1 hother with rfl | hrest
    · exact hmarks other hself
    · exact hpending other hrest hthere

/-- The slots that a collection marks are those of the cells that can be reached. -/
theorem has_reachable_iff (node : Node) (hthere : heap.Resolves node) :
    (heap.reachable scopes values).has node = true ↔ heap.Reaches scopes values node := by
  constructor
  -- what is marked can be reached
  · refine (has_markFrom_sound (heap.Reaches scopes values)
      (fun _ _ hreach hedge hthere => .step hreach hedge hthere) (.none heap) _
      (Marks.fits_none heap) (fun other _ h => ?_) fun other hother hthere => ?_).2 node hthere
    · rw [Marks.has_none] at h
      cases h
    · rcases List.mem_append.1 hother with hscope | hvalue
      · obtain ⟨id, hid, rfl⟩ := List.mem_map.1 hscope
        exact .scope hid hthere
      · obtain ⟨value, hvalue, hrefers⟩ := List.mem_flatMap.1 hvalue
        exact .value hvalue (Value.mem_references_iff.1 hrefers) hthere
  -- what can be reached is marked
  · obtain ⟨-, hpending, hstep⟩ := markFrom_closed (Marks.none heap)
      (scopes.map .scope ++ values.flatMap Value.references) (Marks.fits_none heap)
      fun other _ h => by
        rw [Marks.has_none] at h
        cases h
    intro hreach
    induction hreach with
    | @scope id root there =>
      exact hpending _ (List.mem_append_left _ (List.mem_map_of_mem root)) there
    | @value value node root refers there =>
      refine hpending _ (List.mem_append_right _ ?_) there
      exact List.mem_flatMap.2 ⟨value, root, Value.mem_references_iff.2 refers⟩
    | step reached edge there ih => exact hstep _ _ reached.resolves (ih reached.resolves) edge there

/-! ## Collecting -/

/-- The heap after a collection. -/
abbrev collected (heap : Heap) (scopes : List ScopeId) (values : List Value) : Heap :=
  (heap.collect scopes values).1

section

open scoped Classical

/-- A scope gives what it gave if it could be reached, and nothing otherwise. -/
theorem get?_scopes_collect (id : ScopeId) : (heap.collected scopes values).scopes.get? id =
    if heap.Reaches scopes values (.scope id) then heap.scopes.get? id else none :=
  Arena.get?_sweep_of_iff fun scope hget => has_reachable_iff (.scope id) ⟨scope, hget⟩

/-- An object gives what it gave if it could be reached, and nothing otherwise. -/
theorem get?_objects_collect (id : ObjectId) : (heap.collected scopes values).objects.get? id =
    if heap.Reaches scopes values (.object id) then heap.objects.get? id else none :=
  Arena.get?_sweep_of_iff fun cell hget => has_reachable_iff (.object id) ⟨cell, hget⟩

/-- An array gives what it gave if it could be reached, and nothing otherwise. -/
theorem get?_arrays_collect (id : ArrayId) : (heap.collected scopes values).arrays.get? id =
    if heap.Reaches scopes values (.array id) then heap.arrays.get? id else none :=
  Arena.get?_sweep_of_iff fun cell hget => has_reachable_iff (.array id) ⟨cell, hget⟩

end

/-- A node that is reached survives. -/
theorem resolves_collected {node : Node} (h : heap.Reaches scopes values node) :
    (heap.collected scopes values).Resolves node := by
  cases node with
  | scope id =>
    obtain ⟨scope, hget⟩ := h.resolves
    exact ⟨scope, by rw [get?_scopes_collect, if_pos h, hget]⟩
  | object id =>
    obtain ⟨cell, hget⟩ := h.resolves
    exact ⟨cell, by rw [get?_objects_collect, if_pos h, hget]⟩
  | array id =>
    obtain ⟨cell, hget⟩ := h.resolves
    exact ⟨cell, by rw [get?_arrays_collect, if_pos h, hget]⟩

/-- Only what is reached survives. -/
theorem reaches_of_resolves_collected (node : Node)
    (h : (heap.collected scopes values).Resolves node) : heap.Reaches scopes values node := by
  refine Classical.byContradiction fun hreach => ?_
  cases node with
  | scope id =>
    obtain ⟨scope, hget⟩ := h
    rw [get?_scopes_collect, if_neg hreach] at hget
    cases hget
  | object id =>
    obtain ⟨cell, hget⟩ := h
    rw [get?_objects_collect, if_neg hreach] at hget
    cases hget
  | array id =>
    obtain ⟨cell, hget⟩ := h
    rw [get?_arrays_collect, if_neg hreach] at hget
    cases hget

/-- A survivor still refers to what it referred to. -/
theorem refers_collected {node next : Node} (h : heap.Reaches scopes values node)
    (hedge : heap.Refers node next) : (heap.collected scopes values).Refers node next := by
  cases hedge with
  | parent here edge => exact .parent (by rw [get?_scopes_collect, if_pos h, here]) edge
  | binding here edge refers =>
    exact .binding (by rw [get?_scopes_collect, if_pos h, here]) edge refers
  | returned here edge refers =>
    exact .returned (by rw [get?_scopes_collect, if_pos h, here]) edge refers
  | property here edge refers =>
    exact .property (by rw [get?_objects_collect, if_pos h, here]) edge refers
  | element here edge refers =>
    exact .element (by rw [get?_arrays_collect, if_pos h, here]) edge refers
  | sideProperty here edge refers =>
    exact .sideProperty (by rw [get?_arrays_collect, if_pos h, here]) edge refers

/-- After a collection, the same roots reach everything that is left. -/
theorem reaches_collected {node : Node} (h : heap.Reaches scopes values node) :
    (heap.collected scopes values).Reaches scopes values node := by
  induction h with
  | scope root there => exact .scope root (resolves_collected (.scope root there))
  | value root refers there =>
    exact .value root refers (resolves_collected (.value root refers there))
  | step reached edge there ih =>
    exact .step ih (refers_collected reached edge) (resolves_collected (.step reached edge there))

/-- What every heap made by operations is like. -/
structure WellFormed (heap : Heap) : Prop where
  scopes : heap.scopes.WellFormed
  objects : heap.objects.WellFormed
  arrays : heap.arrays.WellFormed

/-- The empty heap is well formed. -/
theorem wellFormed_empty : Heap.empty.WellFormed :=
  ⟨Arena.wellFormed_empty, Arena.wellFormed_empty, Arena.wellFormed_empty⟩

/-- A collection keeps a heap well formed. -/
theorem WellFormed.collected (h : heap.WellFormed) (scopes : List ScopeId) (values : List Value) :
    (heap.collected scopes values).WellFormed :=
  ⟨Arena.wellFormed_sweep h.scopes _, Arena.wellFormed_sweep h.objects _,
    Arena.wellFormed_sweep h.arrays _⟩

/-- Nothing is garbage in an arena whose occupants are all marked. -/
theorem garbage_eq_nil {kind : CellKind} {α : Type} (arena : Arena kind α) (marks : Array Bool)
    (h : ∀ handle value, arena.get? handle = some value → marks.getD handle.index false = true) :
    arena.garbage marks = [] := by
  refine List.eq_nil_iff_forall_not_mem.2 fun index hindex => ?_
  obtain ⟨hocc, hmark⟩ := Arena.mem_garbage_iff.1 hindex
  obtain ⟨slot, value, hslot, hvalue⟩ := Arena.isOccupied_eq_true_iff.1 hocc
  rw [h ⟨index, slot.generation⟩ value (Arena.get?_eq_some_iff.2 ⟨slot, hslot, rfl, hvalue⟩)] at hmark
  cases hmark

/-- A second collection with the same roots frees nothing. -/
theorem collect_collected :
    ((heap.collected scopes values).collect scopes values).2 = 0 := by
  have hmarked : ∀ node, (heap.collected scopes values).Resolves node →
      ((heap.collected scopes values).reachable scopes values).has node = true := fun node h =>
    (has_reachable_iff node h).2 (reaches_collected (reaches_of_resolves_collected node h))
  have hscopes := garbage_eq_nil (heap.collected scopes values).scopes
    ((heap.collected scopes values).reachable scopes values).scopes
    fun id scope h => hmarked (.scope id) ⟨scope, h⟩
  have hobjects := garbage_eq_nil (heap.collected scopes values).objects
    ((heap.collected scopes values).reachable scopes values).objects
    fun id cell h => hmarked (.object id) ⟨cell, h⟩
  have harrays := garbage_eq_nil (heap.collected scopes values).arrays
    ((heap.collected scopes values).reachable scopes values).arrays
    fun id cell h => hmarked (.array id) ⟨cell, h⟩
  show (Arena.garbage _ _).length + (Arena.garbage _ _).length + (Arena.garbage _ _).length = 0
  rw [hscopes, hobjects, harrays]
  rfl

/-- What an exact collection with these roots leaves behind. -/
structure CollectsTo (heap : Heap) (scopes : List ScopeId) (values : List Value) (after : Heap)
    (freed : Nat) : Prop where
  scopes_swept : heap.scopes.SweptTo after.scopes fun id => heap.Reaches scopes values (.scope id)
  objects_swept :
    heap.objects.SweptTo after.objects fun id => heap.Reaches scopes values (.object id)
  arrays_swept : heap.arrays.SweptTo after.arrays fun id => heap.Reaches scopes values (.array id)
  /-- The number given is that of the slots that are no longer occupied. -/
  freed_eq : freed = (heap.scopes.freedSlots after.scopes).length
    + (heap.objects.freedSlots after.objects).length
    + (heap.arrays.freedSlots after.arrays).length
  /-- The count of cells falls by as many. -/
  live_eq : heap.WellFormed → after.live + freed = heap.live
  /-- Nothing is left to be freed. -/
  nothing_left : (after.collect scopes values).2 = 0

/-- **Collection is exact.**  On every heap, with every choice of roots, a collection frees the
    cells that the roots do not reach and leaves all others as they are. -/
theorem collect_exact (heap : Heap) (scopes : List ScopeId) (values : List Value) :
    heap.CollectsTo scopes values (heap.collect scopes values).1
      (heap.collect scopes values).2 where
  scopes_swept := Arena.sweptTo_sweep fun id scope hget =>
    has_reachable_iff (.scope id) ⟨scope, hget⟩
  objects_swept := Arena.sweptTo_sweep fun id cell hget =>
    has_reachable_iff (.object id) ⟨cell, hget⟩
  arrays_swept := Arena.sweptTo_sweep fun id cell hget =>
    has_reachable_iff (.array id) ⟨cell, hget⟩
  freed_eq := by
    have hscopes := Arena.freedSlots_sweep heap.scopes (heap.reachable scopes values).scopes
    have hobjects := Arena.freedSlots_sweep heap.objects (heap.reachable scopes values).objects
    have harrays := Arena.freedSlots_sweep heap.arrays (heap.reachable scopes values).arrays
    show (Arena.garbage _ _).length + (Arena.garbage _ _).length + (Arena.garbage _ _).length = _
    rw [← hscopes, ← hobjects, ← harrays]
    rfl
  live_eq h := by
    have hscopes := Arena.live_sweep h.scopes (heap.reachable scopes values).scopes
    have hobjects := Arena.live_sweep h.objects (heap.reachable scopes values).objects
    have harrays := Arena.live_sweep h.arrays (heap.reachable scopes values).arrays
    simp only [Heap.live, Heap.collect]
    omega
  nothing_left := collect_collected

end Heap

end Tao
