/-
  One thing in a heap.

  A SPOT is what an assignment can change: a binding of a scope, a property of an object, an element
  of an array, or a property beside the elements of an array.  Two heaps AGREE BUT for a spot if
  everything else is the same in both: all other spots, the parents and signals of scopes, the sizes
  of arrays, which handles resolve, and the slots that are vacant.  To SET a spot is to change it
  and nothing else; the names of every scope stay as they are, too.

  Each checked change of the heap that assigns a value sets a spot, or fails and changes nothing.
-/
import Tao.Heap.Names
import Tao.Proofs.Heap.Arena
import Tao.Proofs.Heap.Checked

namespace Tao

/-! ## Values under keys -/

section Keys

variable {key other : String} {value old : Value} {rest : List (String × Value)}

/-- Looking up in a list that begins with an entry, with the equation of keys as the condition. -/
theorem lookup_cons_eq_ite :
    List.lookup other ((key, value) :: rest) =
      if other = key then some value else rest.lookup other := by
  rw [List.lookup_cons]
  by_cases h : other = key
  · rw [if_pos h, beq_iff_eq.2 h]
  · rw [if_neg h, beq_eq_false_iff_ne.2 h]

/-- Setting a property changes the one under its key, and no other. -/
theorem Props.get?_set (props : Props) (key other : String) (value : Value) :
    (Props.set key value props).get? other =
      if other = key then some value else props.get? other := by
  unfold Props.get?
  induction props with
  | nil => exact lookup_cons_eq_ite
  | cons entry rest ih =>
    obtain ⟨k, old⟩ := entry
    unfold Props.set
    split
    · exact lookup_cons_eq_ite
    · split
      · next hkey =>
        subst hkey
        rw [lookup_cons_eq_ite, lookup_cons_eq_ite]
        split <;> rfl
      · next hkey =>
        rw [lookup_cons_eq_ite, lookup_cons_eq_ite, ih]
        split
        · next hother => rw [if_neg (hother ▸ Ne.symm hkey)]
        · rfl

namespace Scope

/-- The names that a scope binds, in the order of their definition. -/
def names (scope : Scope) : List String := scope.bindings.map Prod.fst

/-- A scope has no value for the names that it does not bind. -/
theorem get?_eq_none_iff {scope : Scope} {name : String} :
    scope.get? name = none ↔ name ∉ scope.names := by
  unfold Scope.get? names
  rw [List.lookup_eq_none_iff, List.mem_map]
  constructor
  · rintro hne ⟨binding, hmem, rfl⟩
    exact bne_iff_ne.1 (hne binding hmem) rfl
  · intro hnot binding hmem
    exact bne_iff_ne.2 fun heq => hnot ⟨binding, hmem, heq.symm⟩

/-- Binding a name anew changes the value of this name where it is bound, and no other. -/
theorem lookup_rebind (name other : String) (value : Value) (bindings : List (String × Value)) :
    (rebind name value bindings).lookup other =
      if other = name then (bindings.lookup name).map fun _ => value
      else bindings.lookup other := by
  induction bindings with
  | nil => exact (ite_self none).symm
  | cons entry rest ih =>
    obtain ⟨bound, old⟩ := entry
    unfold rebind
    by_cases hbound : name = bound
    · subst hbound
      rw [if_pos rfl, lookup_cons_eq_ite, lookup_cons_eq_ite, lookup_cons_eq_ite, if_pos rfl]
      split <;> rfl
    · rw [if_neg hbound, lookup_cons_eq_ite, lookup_cons_eq_ite, lookup_cons_eq_ite, ih,
        if_neg hbound]
      by_cases hother : other = name
      · rw [if_pos hother, if_pos hother, if_neg (hother ▸ hbound)]
      · rw [if_neg hother, if_neg hother]

/-- Binding a name anew leaves the names and their order. -/
theorem map_fst_rebind (name : String) (value : Value) (bindings : List (String × Value)) :
    (rebind name value bindings).map Prod.fst = bindings.map Prod.fst := by
  induction bindings with
  | nil => rfl
  | cons entry rest ih =>
    obtain ⟨bound, old⟩ := entry
    unfold rebind
    split
    · rfl
    · exact congrArg (bound :: ·) ih

end Scope

end Keys

/-! ## Reading cells -/

/-- An index has a place in an array if it is neither negative nor beyond the end. -/
theorem ArrayCell.place_eq_ok_iff {cell : ArrayCell} {index : Int64} {n : Nat} :
    cell.place index = .ok n ↔
      0 ≤ index.toInt ∧ index.toInt.toNat < cell.elements.size ∧ index.toInt.toNat = n := by
  unfold place
  split
  · next hout =>
    simp only [Bool.or_eq_true, decide_eq_true_eq] at hout
    exact ⟨nofun, fun ⟨hnonneg, hlt, _⟩ => by omega⟩
  · next hin =>
    simp only [Bool.or_eq_true, decide_eq_true_eq, not_or, Int.not_lt, Nat.not_le] at hin
    exact ⟨fun h => ⟨hin.1, hin.2, Except.ok.inj h⟩, fun h => congrArg Except.ok h.2.2⟩

namespace Heap

/-- A reading in two steps succeeds if both steps do. -/
theorem exists_of_bind_eq_ok {ε α β : Type} {x : Except ε α} {f : α → Except ε β} {b : β}
    (h : (x >>= f) = .ok b) : ∃ a, x = .ok a ∧ f a = .ok b := by
  cases x with
  | error e => cases h
  | ok a => exact ⟨a, rfl, h⟩

end Heap

/-! ## The same slots -/

namespace Arena

variable {kind : CellKind} {α β : Type} {before after : Arena kind α}

/-- No cell was made and none was freed. -/
structure SameSlots (before after : Arena kind α) : Prop where
  size : after.slots.size = before.slots.size
  free : after.free = before.free
  live : after.live = before.live
  resolves : ∀ handle, (after.get? handle).isSome = (before.get? handle).isSome

/-- Doing nothing leaves the slots. -/
theorem SameSlots.refl (arena : Arena kind α) : arena.SameSlots arena :=
  ⟨rfl, rfl, rfl, fun _ => rfl⟩

/-- What can be seen of a cell after a change that cannot be seen in it. -/
theorem observe_modify (arena : Arena kind α) {handle other : Handle kind} {f : α → α}
    (g : Option α → β)
    (hsame : other = handle → ∀ value, g (some (f value)) = g (some value)) :
    g ((arena.modify handle f).get? other) = g (arena.get? other) := by
  rw [get?_modify]
  by_cases hother : other = handle
  · subst hother
    rw [if_pos rfl]
    cases arena.get? other with
    | none => rfl
    | some value => exact hsame rfl value
  · rw [if_neg hother]

/-- A change makes and frees nothing. -/
theorem sameSlots_modify (arena : Arena kind α) (handle : Handle kind) (f : α → α) :
    arena.SameSlots (arena.modify handle f) where
  size := size_modify arena handle f
  free := rfl
  live := rfl
  resolves _ := observe_modify arena Option.isSome fun _ _ => rfl

end Arena

/-! ## Spots -/

/-- What an assignment can change. -/
inductive Spot where
  | binding (scope : ScopeId) (name : String)
  | property (object : ObjectId) (key : String)
  | element (array : ArrayId) (index : Nat)
  /-- A property beside the elements of an array. -/
  | extra (array : ArrayId) (key : String)
  deriving DecidableEq

namespace Heap

variable {heap before after : Heap} {value : Value}

/-- The value at a spot. -/
def valueAt (heap : Heap) : Spot → Option Value
  | .binding id name => (heap.scopes.get? id).bind (·.get? name)
  | .property id key => (heap.objects.get? id).bind (·.props.get? key)
  | .element id index => (heap.arrays.get? id).bind (·.elements[index]?)
  | .extra id key => (heap.arrays.get? id).bind (·.props.get? key)

/-- The value of a binding is read off its scope. -/
theorem valueAt_binding (heap : Heap) (id : ScopeId) (name : String) :
    heap.valueAt (.binding id name) = (heap.scopes.get? id).bind (·.get? name) := rfl

/-- That of a property is read off its object. -/
theorem valueAt_property (heap : Heap) (id : ObjectId) (key : String) :
    heap.valueAt (.property id key) = (heap.objects.get? id).bind (·.props.get? key) := rfl

/-- That of an element is read off its array. -/
theorem valueAt_element (heap : Heap) (id : ArrayId) (index : Nat) :
    heap.valueAt (.element id index) = (heap.arrays.get? id).bind (·.elements[index]?) := rfl

/-- The properties beside the elements are read off the array, too. -/
theorem valueAt_extra (heap : Heap) (id : ArrayId) (key : String) :
    heap.valueAt (.extra id key) = (heap.arrays.get? id).bind (·.props.get? key) := rfl

/-- A spot that can be set: a binding or an element that is there, or any property of an object or
    of an array that is. -/
def Has (heap : Heap) : Spot → Prop
  | .binding id name => (heap.valueAt (.binding id name)).isSome = true
  | .property id _ => (heap.objects.get? id).isSome = true
  | .element id index => (heap.valueAt (.element id index)).isSome = true
  | .extra id _ => (heap.arrays.get? id).isSome = true

/-- All is the same but for this spot. -/
structure AgreesBut (spot : Spot) (before after : Heap) : Prop where
  values : ∀ other, other ≠ spot → after.valueAt other = before.valueAt other
  scopes : before.scopes.SameSlots after.scopes
  objects : before.objects.SameSlots after.objects
  arrays : before.arrays.SameSlots after.arrays
  parents : ∀ id, (after.scopes.get? id).map Scope.parent =
    (before.scopes.get? id).map Scope.parent
  signals : ∀ id, (after.scopes.get? id).map (fun scope => (scope.broke, scope.returned)) =
    (before.scopes.get? id).map fun scope => (scope.broke, scope.returned)
  sizes : ∀ id, (after.arrays.get? id).map (·.elements.size) =
    (before.arrays.get? id).map (·.elements.size)

/-- This value was put into a spot, and nothing else has changed. -/
structure Sets (spot : Spot) (value : Value) (before after : Heap) : Prop where
  value : after.valueAt spot = some value
  rest : AgreesBut spot before after
  /-- No name was bound, and no binding moved. -/
  names : ∀ id, (after.scopes.get? id).map Scope.names = (before.scopes.get? id).map Scope.names

/-- What is set was there to be set. -/
theorem Sets.has {spot : Spot} (h : before.Sets spot value after) : before.Has spot := by
  have hvalue := h.value
  cases spot with
  | binding id name =>
    -- no name was bound, and so this one was bound before
    obtain ⟨scope', hget', hvalue⟩ := Option.bind_eq_some_iff.1 hvalue
    have hnames := (h.names id).symm
    rw [hget'] at hnames
    obtain ⟨scope, hget, hnames⟩ := Option.map_eq_some_iff.1 hnames
    show ((before.scopes.get? id).bind (·.get? name)).isSome = true
    rw [hget]
    refine Option.isSome_iff_ne_none.2 fun hnone => ?_
    have hfree := Scope.get?_eq_none_iff.1 hnone
    rw [hnames, ← Scope.get?_eq_none_iff] at hfree
    cases hvalue.symm.trans hfree
  | property id key =>
    obtain ⟨cell, hget, -⟩ := Option.bind_eq_some_iff.1 hvalue
    exact (h.rest.objects.resolves id).symm.trans (Option.isSome_iff_exists.2 ⟨cell, hget⟩)
  | element id index =>
    -- no array has grown, and so there was an element before
    obtain ⟨cell', hget', hvalue⟩ := Option.bind_eq_some_iff.1 hvalue
    have hsizes := (h.rest.sizes id).symm
    rw [hget'] at hsizes
    obtain ⟨cell, hget, hsize⟩ := Option.map_eq_some_iff.1 hsizes
    obtain ⟨hlt, -⟩ := Array.getElem?_eq_some_iff.1 hvalue
    show ((before.arrays.get? id).bind (·.elements[index]?)).isSome = true
    rw [hget]
    show cell.elements[index]?.isSome = true
    rw [Array.getElem?_eq_getElem (hsize ▸ hlt)]
    rfl
  | extra id key =>
    obtain ⟨cell, hget, -⟩ := Option.bind_eq_some_iff.1 hvalue
    exact (h.rest.arrays.resolves id).symm.trans (Option.isSome_iff_exists.2 ⟨cell, hget⟩)

/-- A change of a scope that touches neither another name nor parent and signals leaves everything
    but the one binding. -/
theorem agreesBut_modifyScope {id : ScopeId} {name : String} {f : Scope → Scope}
    (hothers : ∀ scope other, other ≠ name → (f scope).get? other = scope.get? other)
    (hparent : ∀ scope, (f scope).parent = scope.parent)
    (hsignals : ∀ scope, (f scope).broke = scope.broke ∧ (f scope).returned = scope.returned) :
    AgreesBut (.binding id name) heap (heap.modifyScope id f) where
  values other hother := by
    cases other with
    | binding other key =>
      refine Arena.observe_modify heap.scopes (fun found => found.bind (·.get? key)) ?_
      rintro rfl scope
      exact hothers scope key fun heq => hother (heq ▸ rfl)
    | property | element | extra => rfl
  scopes := Arena.sameSlots_modify _ _ _
  objects := .refl _
  arrays := .refl _
  parents _ := Arena.observe_modify heap.scopes (Option.map Scope.parent) fun _ scope =>
    congrArg some (hparent scope)
  signals _ := Arena.observe_modify heap.scopes
    (Option.map fun scope => (scope.broke, scope.returned)) fun _ scope =>
      congrArg some (Prod.ext (hsignals scope).1 (hsignals scope).2)
  sizes _ := rfl

/-- A change of an object that touches no other key leaves everything but the one property. -/
theorem agreesBut_modifyObject {id : ObjectId} {key : String} {f : ObjectCell → ObjectCell}
    (hothers : ∀ cell other, other ≠ key → (f cell).props.get? other = cell.props.get? other) :
    AgreesBut (.property id key) heap (heap.modifyObject id f) where
  values other hother := by
    cases other with
    | property other key' =>
      refine Arena.observe_modify heap.objects (fun found => found.bind (·.props.get? key')) ?_
      rintro rfl cell
      exact hothers cell key' fun heq => hother (heq ▸ rfl)
    | binding | element | extra => rfl
  scopes := .refl _
  objects := Arena.sameSlots_modify _ _ _
  arrays := .refl _
  parents _ := rfl
  signals _ := rfl
  sizes _ := rfl

/-- A change of an array that touches nothing but one spot in it, and not its size, leaves
    everything but this spot. -/
theorem agreesBut_modifyArray {id : ArrayId} {spot : Spot} {f : ArrayCell → ArrayCell}
    (helements : ∀ index, .element id index ≠ spot → ∀ cell,
      (f cell).elements[index]? = cell.elements[index]?)
    (hextras : ∀ key, .extra id key ≠ spot → ∀ cell, (f cell).props.get? key = cell.props.get? key)
    (hsize : ∀ cell, (f cell).elements.size = cell.elements.size) :
    AgreesBut spot heap (heap.modifyArray id f) where
  values other hother := by
    cases other with
    | element other index =>
      refine Arena.observe_modify heap.arrays (fun found => found.bind (·.elements[index]?)) ?_
      rintro rfl cell
      exact helements index hother cell
    | extra other key =>
      refine Arena.observe_modify heap.arrays (fun found => found.bind (·.props.get? key)) ?_
      rintro rfl cell
      exact hextras key hother cell
    | binding | property => rfl
  scopes := .refl _
  objects := .refl _
  arrays := Arena.sameSlots_modify _ _ _
  parents _ := rfl
  signals _ := rfl
  sizes _ := Arena.observe_modify heap.arrays (Option.map (·.elements.size)) fun _ cell =>
    congrArg some (hsize cell)

/-- Changing the binding of a name where it is bound. -/
theorem sets_rebind {owner : ScopeId} {name : String}
    (hbound : (heap.valueAt (.binding owner name)).isSome = true) :
    heap.Sets (.binding owner name) value (heap.modifyScope owner fun scope =>
      { scope with bindings := Scope.rebind name value scope.bindings }) := by
  refine ⟨?_, agreesBut_modifyScope (fun scope other hother => ?_) (fun _ => rfl)
    fun _ => ⟨rfl, rfl⟩, fun _ => ?_⟩
  · obtain ⟨old, hold⟩ := Option.isSome_iff_exists.1 hbound
    obtain ⟨scope, hget, hold⟩ := Option.bind_eq_some_iff.1 hold
    unfold modifyScope
    rw [valueAt_binding, Arena.get?_modify, if_pos rfl, hget]
    have hlookup := Scope.lookup_rebind name name value scope.bindings
    rw [if_pos rfl, show scope.bindings.lookup name = some old from hold] at hlookup
    exact hlookup
  · exact (Scope.lookup_rebind _ _ _ _).trans (if_neg hother)
  · exact Arena.observe_modify heap.scopes (Option.map Scope.names) fun _ scope =>
      congrArg some (Scope.map_fst_rebind name value scope.bindings)

end Heap

/-! ## Checked changes -/

namespace Store

open Heap

/-- How putting a value into a spot of a heap may end: the spot is set, or nothing is changed. -/
inductive Puts (spot : Spot) (value : Value) (heap : Heap) :
    EStateM.Result RuntimeError Heap Unit → Prop where
  | done {after : Heap} (hsets : heap.Sets spot value after) : Puts spot value heap (.ok () after)
  | failed (e : RuntimeError) : Puts spot value heap (.error e heap)

variable {α : Type} {f : Heap → Except RuntimeError α} {g : α → Heap → Heap} {heap : Heap}
  {spot : Spot} {value : Value}

/-- A checked change puts a value into a spot if, wherever the check succeeds, the change sets
    it. -/
theorem puts_of_check (h : ∀ a, f heap = .ok a → heap.Sets spot value (g a heap)) :
    Puts spot value heap ((read f >>= fun a => modify (g a) : Store Unit) heap) := by
  cases hcheck : f heap with
  | error e =>
    rw [no_change_of_check_error hcheck]
    exact .failed e
  | ok a =>
    rw [change_of_check_ok hcheck]
    exact .done (h a hcheck)

/-- Putting a property of an object sets it, or fails. -/
theorem puts_putProp (id : ObjectId) (key : String) :
    Puts (.property id key) value heap (putProp id key value heap) := by
  refine puts_of_check fun cell hcell => ?_
  have hget := object_eq_ok_iff.1 hcell
  refine ⟨?_, agreesBut_modifyObject fun cell other hother => ?_, fun _ => rfl⟩
  · unfold Heap.modifyObject
    rw [valueAt_property, Arena.get?_modify, if_pos rfl, hget]
    exact (Props.get?_set _ _ _ _).trans (if_pos rfl)
  · exact (Props.get?_set _ _ _ _).trans (if_neg hother)

/-- Putting a property beside the elements of an array sets it, or fails. -/
theorem puts_putArrayProp (id : ArrayId) (key : String) :
    Puts (.extra id key) value heap (putArrayProp id key value heap) := by
  refine puts_of_check fun cell hcell => ?_
  have hget := array_eq_ok_iff.1 hcell
  refine ⟨?_, agreesBut_modifyArray (fun _ _ _ => rfl) (fun other hother cell => ?_) fun _ => rfl,
    fun _ => rfl⟩
  · unfold Heap.modifyArray
    rw [valueAt_extra, Arena.get?_modify, if_pos rfl, hget]
    exact (Props.get?_set _ _ _ _).trans (if_pos rfl)
  · have hkey : other ≠ key := fun heq => hother (heq ▸ rfl)
    exact (Props.get?_set _ _ _ _).trans (if_neg hkey)

/-- An element is replaced only if its index is within the array. -/
theorem nonneg_of_setElement {id : ArrayId} {index : Int64} {next : Heap}
    (h : setElement id index value heap = .ok () next) : 0 ≤ index.toInt := by
  obtain ⟨place, hcheck⟩ := check_of_change_ok h
  obtain ⟨cell, -, hplace⟩ := exists_of_bind_eq_ok hcheck
  exact (ArrayCell.place_eq_ok_iff.1 hplace).1

/-- Replacing an element sets it, or fails. -/
theorem puts_setElement (id : ArrayId) (index : Int64) :
    Puts (.element id index.toInt.toNat) value heap (setElement id index value heap) := by
  refine puts_of_check fun place hplace => ?_
  obtain ⟨cell, hcell, hplace⟩ := exists_of_bind_eq_ok hplace
  have hget := array_eq_ok_iff.1 hcell
  obtain ⟨-, hlt, rfl⟩ := ArrayCell.place_eq_ok_iff.1 hplace
  refine ⟨?_, agreesBut_modifyArray (fun other hother cell => ?_) (fun _ _ _ => rfl) fun cell => ?_,
    fun _ => rfl⟩
  · unfold Heap.modifyArray
    rw [valueAt_element, Arena.get?_modify, if_pos rfl, hget]
    exact Array.getElem?_setIfInBounds_self_of_lt hlt
  · have hindex : index.toInt.toNat ≠ other := fun heq => hother (heq ▸ rfl)
    exact Array.getElem?_setIfInBounds_ne hindex
  · exact Array.size_setIfInBounds

end Store

end Tao
