/-
  Storing to a place and loading from it.

  1. **Places and spots** — with a scope active, a place DENOTES the one spot of the heap that
     storing to it changes: the nearest binding of a name, a property, an element, or a property
     beside the elements of an array.  Storing succeeds where the heap HAS that spot.

  2. **Storing, then loading** — a store sets that spot or changes nothing, and after it the place
     holds the value that was stored.

  3. **Members of arrays** — under the name of its length or of a method an array OFFERS something
     of its own, whatever is kept beside its elements.  Storing fails under these keys and no
     others, so nothing is ever kept there that could not be found again.
-/
import Tao.Evaluator.Place
import Tao.Proofs.Heap.Naming

namespace Tao

variable {m : Machine} {heap before after : Heap} {id scope owner : ScopeId} {key name : String}
  {value old member : Value} {cell : ArrayCell} {array : ArrayId} {stamp : Nat} {spot : Spot}

/-! ## Members of arrays -/

/-- What an array has under a key of its own: its length, or one of its methods under a new
    stamp. -/
inductive ArrayCell.Offers (cell : ArrayCell) (array : ArrayId) (stamp : Nat) :
    String → Value → Prop where
  | length : Offers cell array stamp "length" (.number (Int64.ofNat cell.elements.size))
  | method (method : ArrayMethod) :
    Offers cell array stamp method.name (.builtin (.arrayMethod stamp method array))

/-- A method is found under its name. -/
theorem ArrayMethod.ofName?_name (method : ArrayMethod) : ofName? method.name = some method := by
  cases method <;> rfl

theorem ArrayMethod.name_ne_length (method : ArrayMethod) : method.name ≠ "length" := by
  cases method <;> decide

/-- A method is found under its own name only. -/
theorem ArrayMethod.name_of_ofName? {method : ArrayMethod} (h : ofName? key = some method) :
    method.name = key := by
  unfold ofName? at h
  have hfound := List.find?_some h
  exact of_decide_eq_true hfound

/-- The keys that cannot be stored under are those of what an array offers. -/
theorem isOwnMember_eq_true_iff : isOwnMember key = true ↔
    ∃ member, cell.Offers array stamp key member := by
  unfold isOwnMember
  rw [Bool.or_eq_true, decide_eq_true_eq]
  constructor
  · rintro (rfl | hmethod)
    · exact ⟨_, .length⟩
    · obtain ⟨method, hmethod⟩ := Option.isSome_iff_exists.1 hmethod
      obtain rfl := ArrayMethod.name_of_ofName? hmethod
      exact ⟨_, .method method⟩
  · rintro ⟨member, hoffers⟩
    cases hoffers with
    | length => exact .inl rfl
    | method method => exact .inr (by rw [ArrayMethod.ofName?_name]; rfl)

/-- Under a key that one array offers something under, every array does. -/
theorem ArrayCell.Offers.everywhere (h : cell.Offers array stamp key member) (other : ArrayCell) :
    ∃ member, other.Offers array stamp key member :=
  isOwnMember_eq_true_iff.1 (isOwnMember_eq_true_iff.2 ⟨member, h⟩)

namespace Heap

/-- What an array offers under a key is its member there. -/
theorem memberOfArray_of_offers (hget : heap.arrays.get? array = some cell)
    (hoffers : cell.Offers array stamp key member) :
    heap.memberOfArray stamp array key = .ok member := by
  unfold memberOfArray
  rw [array_eq_ok_iff.2 hget]
  cases hoffers with
  | length => rfl
  | method method =>
    show (if method.name = "length" then _ else _) = _
    rw [if_neg method.name_ne_length, ArrayMethod.ofName?_name]
    rfl

/-- Under all other keys its members are the properties beside its elements. -/
theorem memberOfArray_of_not_own (hget : heap.arrays.get? array = some cell)
    (hkey : isOwnMember key = false) :
    heap.memberOfArray stamp array key = .ok ((cell.props.get? key).getD .nil) := by
  unfold isOwnMember at hkey
  rw [Bool.or_eq_false_iff, decide_eq_false_iff_not, Option.isSome_eq_false_iff,
    Option.isNone_iff_eq_none] at hkey
  unfold memberOfArray
  rw [array_eq_ok_iff.2 hget]
  show (if key = "length" then _ else _) = _
  rw [if_neg hkey.1, hkey.2]
  rfl

/-- Beside the elements of arrays nothing is kept under a key that they offer something under. -/
def NothingHidden (heap : Heap) : Prop := ∀ array cell stamp key member,
  heap.arrays.get? array = some cell → cell.Offers array stamp key member →
    cell.props.get? key = none

end Heap

/-! ## Parts of a machine -/

namespace Eval

variable {α : Type} {f : Heap → Except RuntimeError α} {x : Store α} {a : α} {e : RuntimeError}

theorem read_of_ok (h : f m.heap = .ok a) : read f m = .ok a m := by
  unfold read
  rw [h]

theorem store_of_ok (h : x m.heap = .ok a after) : store x m = .ok a { m with heap := after } := by
  unfold store
  rw [h]

theorem store_of_error (h : x m.heap = .error e m.heap) : store x m = .error (.failed e) m := by
  unfold store
  rw [h]

end Eval

/-! ## Loading what is at a spot -/

/-- A property of an object is loaded. -/
theorem loadSlot_property {object : ObjectId}
    (h : m.heap.valueAt (.property object key) = some value) :
    loadSlot (.object object) (.string key) m = .ok value m := by
  obtain ⟨cell, hget, hvalue⟩ := Option.bind_eq_some_iff.1 h
  have hload : loadSlot (.object object) (.string key) =
      Eval.read fun heap => do return ((← heap.object object).props.get? key).getD .nil := rfl
  rw [hload]
  refine Eval.read_of_ok ?_
  rw [Heap.object_eq_ok_iff.2 hget]
  exact congrArg (fun found => Except.ok (found.getD .nil)) hvalue

/-- So is an element of an array. -/
theorem loadSlot_element {index : Int64} (hindex : 0 ≤ index.toInt)
    (h : m.heap.valueAt (.element array index.toInt.toNat) = some value) :
    loadSlot (.array array) (.number index) m = .ok value m := by
  obtain ⟨cell, hget, hvalue⟩ := Option.bind_eq_some_iff.1 h
  obtain ⟨hlt, hvalue⟩ := Array.getElem?_eq_some_iff.1 hvalue
  have hload : loadSlot (.array array) (.number index) =
      Eval.read fun heap => heap.array array >>= (·.get index) := rfl
  rw [hload]
  refine Eval.read_of_ok ?_
  rw [Heap.array_eq_ok_iff.2 hget]
  show cell.get index = .ok value
  unfold ArrayCell.get
  rw [ArrayCell.place_eq_ok_iff.2 ⟨hindex, hlt, rfl⟩]
  show Except.ok (cell.elements.getD index.toInt.toNat .nil) = _
  rw [Array.getD_eq_getD_getElem?, Array.getElem?_eq_getElem hlt, hvalue]
  rfl

/-- To load a member of an array takes a stamp. -/
theorem loadSlot_member (key : String) (h : m.heap.memberOfArray m.stamps array key = .ok value) :
    loadSlot (.array array) (.string key) m = .ok value { m with stamps := m.stamps + 1 } := by
  have hload : loadSlot (.array array) (.string key) m =
      Eval.read (·.memberOfArray m.stamps array key) { m with stamps := m.stamps + 1 } := rfl
  rw [hload]
  exact Eval.read_of_ok h

/-- This goes for the properties beside the elements, too. -/
theorem loadSlot_extra (hkey : isOwnMember key = false)
    (h : m.heap.valueAt (.extra array key) = some value) :
    loadSlot (.array array) (.string key) m = .ok value { m with stamps := m.stamps + 1 } := by
  obtain ⟨cell, hget, hvalue⟩ := Option.bind_eq_some_iff.1 h
  refine loadSlot_member key ((Heap.memberOfArray_of_not_own hget hkey).trans ?_)
  rw [hvalue]
  rfl

/-- Assigning to a name makes it resolve to the value. -/
theorem Heap.Sets.resolve_eq (h : before.Sets (.binding owner name) value after)
    (hresolve : before.resolve scope name = .bound owner old) :
    after.resolve scope name = .bound owner value := by
  obtain ⟨n, hn, hpasses, hvalue⟩ := exists_of_resolve_eq_bound hresolve
  have hbinders := h.sameBinders (Option.isSome_iff_exists.2 ⟨old, hvalue⟩) name
  refine resolveWithin_of_passes (hpasses.agree h.rest hbinders) (.bound h.value) ?_
  rwa [h.rest.scopes.size]

/-! ## Places and spots -/

namespace Place

/-- The spot that storing to a place changes, with this scope active. -/
inductive Denotes (heap : Heap) (scope : ScopeId) : Place → Spot → Prop where
  | name {text : String} {owner : ScopeId} (hnearest : heap.Nearest scope text owner) :
    Denotes heap scope (.name text) (.binding owner text)
  | property (object : ObjectId) (key : String) :
    Denotes heap scope (.slot (.object object) (.string key)) (.property object key)
  | element (array : ArrayId) (index : Int64) (hindex : 0 ≤ index.toInt) :
    Denotes heap scope (.slot (.array array) (.number index)) (.element array index.toInt.toNat)
  | extra (array : ArrayId) (key : String) (hkey : isOwnMember key = false) :
    Denotes heap scope (.slot (.array array) (.string key)) (.extra array key)

/-- A store sets the spot that the place denotes, and then the value is there to be loaded. -/
structure Stores (place : Place) (value : Value) (m : Machine) (after : Heap) : Prop where
  ends : place.store value m = .ok () { m with heap := after }
  sets : ∃ spot, place.Denotes m.heap m.scope spot ∧ m.heap.Sets spot value after
  /-- A method that is looked for among the members takes a stamp, whether it is found or not. -/
  loads : ∃ stamps, place.load { m with heap := after } = .ok value { m with heap := after, stamps }

/-- Storing to a slot is some change of the heap.  If it puts the value at a spot, it is enough to
    know that the slot denotes the spot and that the value is loaded from there. -/
theorem stores_of_puts {target key : Value} {x : Store Unit}
    (hstore : storeSlot target key value = Eval.store x)
    (hputs : Store.Puts spot value m.heap (x m.heap))
    (hdone : ∀ after, x m.heap = .ok () after → m.heap.Sets spot value after →
      Denotes m.heap m.scope (.slot target key) spot ∧
        ∃ stamps, loadSlot target key { m with heap := after } =
          .ok value { m with heap := after, stamps }) :
    (∃ after, Stores (.slot target key) value m after) ∨
      ∃ e, Place.store value (.slot target key) m = .error (.failed e) m := by
  have hplace : Place.store value (.slot target key) m = Eval.store x m := congrFun hstore m
  generalize hx : x m.heap = result at hputs
  cases hputs with
  | done hsets =>
    obtain ⟨hdenotes, hloads⟩ := hdone _ hx hsets
    exact .inl ⟨_, hplace.trans (Eval.store_of_ok hx), ⟨spot, hdenotes, hsets⟩, hloads⟩
  | failed e => exact .inr ⟨e, hplace.trans (Eval.store_of_error hx)⟩

/-- A name is assigned where it is bound nearest, or the store fails. -/
theorem store_name_cases (text : String) (value : Value) (m : Machine) :
    (∃ after, Stores (.name text) value m after) ∨
      ∃ e, Place.store value (.name text) m = .error (.failed e) m := by
  have hstore : Place.store value (.name text) m =
      Eval.store (Store.assign m.scope text value) m := rfl
  rw [hstore]
  rcases m.heap.assign_cases m.scope text value with
    ⟨owner, old, after, hresolve, hassign, hsets⟩ | ⟨-, e, hassign⟩
  · obtain ⟨n, -, hpasses, hvalue⟩ := Heap.exists_of_resolve_eq_bound hresolve
    have hnearest : m.heap.Nearest m.scope text owner :=
      ⟨n, hpasses, Option.isSome_iff_exists.2 ⟨old, hvalue⟩⟩
    have hload : Place.load (.name text) { m with heap := after } =
        Eval.read (·.valueOf m.scope text) { m with heap := after } := rfl
    refine .inl ⟨after, hstore.trans (Eval.store_of_ok hassign), ⟨_, .name hnearest, hsets⟩,
      m.stamps, hload.trans (Eval.read_of_ok ?_)⟩
    show after.valueOf m.scope text = .ok value
    unfold Heap.valueOf Heap.lookup
    rw [hsets.resolve_eq hresolve]
    rfl
  · exact .inr ⟨e, Eval.store_of_error hassign⟩

/-- A store sets a spot, or it fails and changes nothing.  The cases are those of the target and the
    key, as for loading. -/
theorem store_cases (place : Place) (value : Value) (m : Machine) :
    (∃ after, place.Stores value m after) ∨
      ∃ e, place.store value m = .error (.failed e) m := by
  cases place with
  | name text => exact store_name_cases text value m
  | slot target key =>
    cases target with
    | object object =>
      cases key with
      | string key =>
        exact stores_of_puts rfl (Store.puts_putProp object key) fun after _ hsets =>
          ⟨.property object key, m.stamps, loadSlot_property hsets.value⟩
      | _ => exact .inr ⟨_, rfl⟩
    | array array =>
      cases key with
      | number index =>
        refine stores_of_puts rfl (Store.puts_setElement array index) fun after hx hsets => ?_
        have hindex := Store.nonneg_of_setElement hx
        exact ⟨.element array index hindex, m.stamps, loadSlot_element hindex hsets.value⟩
      | string key =>
        -- nothing is stored under the names of the length and of methods
        by_cases hkey : isOwnMember key = true
        · exact .inr ⟨_, congrFun (if_pos hkey) m⟩
        · have hkey' : isOwnMember key = false := Bool.not_eq_true _ ▸ hkey
          exact stores_of_puts (if_neg hkey) (Store.puts_putArrayProp array key)
            fun after _ hsets =>
              ⟨.extra array key hkey', m.stamps + 1, loadSlot_extra hkey' hsets.value⟩
      | _ => exact .inr ⟨_, rfl⟩
    | _ => exact .inr ⟨_, rfl⟩

/-- Storing to a place succeeds where the spot that it denotes is there. -/
theorem Denotes.exists_store {place : Place} (h : place.Denotes m.heap m.scope spot)
    (hhas : m.heap.Has spot) (value : Value) :
    ∃ next, place.store value m = .ok () next := by
  cases h with
  | @name text owner hnearest =>
    obtain ⟨old, hresolve⟩ := hnearest.exists_resolve_eq
    have hstore : Place.store value (.name text) m =
        Eval.store (Store.assign m.scope text value) m := rfl
    rcases m.heap.assign_cases m.scope text value with
      ⟨_, _, after, -, hassign, -⟩ | ⟨hunbound, -⟩
    · exact ⟨_, hstore.trans (Eval.store_of_ok hassign)⟩
    · exact absurd hresolve (hunbound owner old)
  | property object key =>
    obtain ⟨cell, hget⟩ := Option.isSome_iff_exists.1 hhas
    have hput : Store.putProp object key value m.heap = .ok () _ :=
      Store.change_of_check_ok (Heap.object_eq_ok_iff.2 hget)
    exact ⟨_, Eval.store_of_ok hput⟩
  | element array index hindex =>
    obtain ⟨old, hold⟩ := Option.isSome_iff_exists.1 hhas
    obtain ⟨cell, hget, hold⟩ := Option.bind_eq_some_iff.1 hold
    obtain ⟨hlt, -⟩ := Array.getElem?_eq_some_iff.1 hold
    have hplace : (do (← m.heap.array array).place index : Except RuntimeError Nat) =
        .ok index.toInt.toNat := by
      rw [Heap.array_eq_ok_iff.2 hget]
      exact ArrayCell.place_eq_ok_iff.2 ⟨hindex, hlt, rfl⟩
    have hput : Store.setElement array index value m.heap = .ok () _ :=
      Store.change_of_check_ok hplace
    exact ⟨_, Eval.store_of_ok hput⟩
  | extra array key hkey =>
    obtain ⟨cell, hget⟩ := Option.isSome_iff_exists.1 hhas
    have hput : Store.putArrayProp array key value m.heap = .ok () _ :=
      Store.change_of_check_ok (Heap.array_eq_ok_iff.2 hget)
    have hstore : Place.store value (.slot (.array array) (.string key)) m =
        Eval.store (Store.putArrayProp array key value) m :=
      congrFun (if_neg (Bool.eq_false_iff.1 hkey)) m
    exact ⟨_, hstore.trans (Eval.store_of_ok hput)⟩

/-! ## Keys of arrays -/

/-- A string key of an array is one that the array offers something under, which cannot be stored
    to, or one for a property beside the elements.  Each is loaded without regard to the other. -/
structure KeysApart (m : Machine) (array : ArrayId) (cell : ArrayCell) (key : String) : Prop where
  fails_iff : ∀ value, (∃ halt next,
    Place.store value (.slot (.array array) (.string key)) m = .error halt next) ↔
      ∃ member, cell.Offers array m.stamps key member
  offered : ∀ member, cell.Offers array m.stamps key member →
    Place.load (.slot (.array array) (.string key)) m =
      .ok member { m with stamps := m.stamps + 1 }
  kept : (¬ ∃ member, cell.Offers array m.stamps key member) →
    Place.load (.slot (.array array) (.string key)) m =
      .ok ((cell.props.get? key).getD .nil) { m with stamps := m.stamps + 1 }

/-- A key of an array is offered or kept, as `isOwnMember` decides. -/
theorem keysApart (hget : m.heap.arrays.get? array = some cell) (key : String) :
    KeysApart m array cell key := by
  refine ⟨fun value => ?_, fun member hoffers => ?_, fun hnone => ?_⟩
  · rw [← isOwnMember_eq_true_iff]
    constructor
    · rintro ⟨halt, next, hfails⟩
      by_contra hkey
      have hdenotes : Denotes m.heap m.scope (.slot (.array array) (.string key))
          (.extra array key) := .extra array key (Bool.eq_false_iff.2 hkey)
      obtain ⟨_, hstore⟩ := hdenotes.exists_store (Option.isSome_iff_exists.2 ⟨cell, hget⟩) value
      cases hstore.symm.trans hfails
    · intro hkey
      exact ⟨_, m, congrFun (if_pos hkey) m⟩
  · exact loadSlot_member key (Heap.memberOfArray_of_offers hget hoffers)
  · have hkey : isOwnMember key = false :=
      Bool.eq_false_iff.2 fun hown => hnone (isOwnMember_eq_true_iff.1 hown)
    exact loadSlot_member key (Heap.memberOfArray_of_not_own hget hkey)

/-- Only under other keys is there a spot beside the elements. -/
theorem Denotes.isOwnMember_eq_false {place : Place}
    (h : place.Denotes heap scope (.extra array key)) : isOwnMember key = false := by
  cases h with
  | extra array key hkey => exact hkey

/-- A store hides nothing, as the spot that it sets is none of those that would be hidden. -/
theorem Stores.nothingHidden {place : Place} (h : place.Stores value m after)
    (hhidden : m.heap.NothingHidden) : after.NothingHidden := by
  intro array cell stamp key member hget hoffers
  obtain ⟨spot, hdenotes, hsets⟩ := h.sets
  have hother : .extra array key ≠ spot := by
    rintro rfl
    have hown := isOwnMember_eq_true_iff.2 ⟨member, hoffers⟩
    rw [hdenotes.isOwnMember_eq_false] at hown
    cases hown
  have hvalue := hsets.rest.values (.extra array key) hother
  rw [Heap.valueAt_extra, Heap.valueAt_extra, hget] at hvalue
  refine Eq.trans hvalue ?_
  have hthere := hsets.rest.arrays.resolves array
  rw [hget] at hthere
  obtain ⟨old, hold⟩ := Option.isSome_iff_exists.1 hthere.symm
  rw [hold]
  obtain ⟨member, hoffers⟩ := hoffers.everywhere old
  exact hhidden array old stamp key member hold hoffers

/-- **Storing and loading agree.**  A store succeeds where the heap has the spot that the place
    denotes; it changes this one spot, from which the value is then loaded.  One that fails changes
    nothing.  The keys of an array that cannot be stored to are those under which it offers
    something of its own, so that no property is ever hidden. -/
theorem store_load (m : Machine) :
    (∀ place value, (∃ next, Place.store value place m = .ok () next) ↔
      ∃ spot, place.Denotes m.heap m.scope spot ∧ m.heap.Has spot) ∧
    (∀ place value next, Place.store value place m = .ok () next → ∃ after,
      next = { m with heap := after } ∧ place.Stores value m after ∧
        (m.heap.NothingHidden → after.NothingHidden)) ∧
    (∀ place value halt next, Place.store value place m = .error halt next →
      (∃ e, halt = .failed e) ∧ next = m) ∧
    ∀ array cell key, m.heap.arrays.get? array = some cell → KeysApart m array cell key := by
  refine ⟨fun place value => ⟨?_, ?_⟩, fun place value next hok => ?_,
    fun place value halt next hfails => ?_, fun array cell key hget => keysApart hget key⟩
  · rintro ⟨next, hok⟩
    rcases place.store_cases value m with ⟨after, hstores⟩ | ⟨e, herror⟩
    · obtain ⟨spot, hdenotes, hsets⟩ := hstores.sets
      exact ⟨spot, hdenotes, hsets.has⟩
    · cases herror.symm.trans hok
  · rintro ⟨spot, hdenotes, hhas⟩
    exact hdenotes.exists_store hhas value
  · rcases place.store_cases value m with ⟨after, hstores⟩ | ⟨e, herror⟩
    · cases hstores.ends.symm.trans hok
      exact ⟨after, rfl, hstores, hstores.nothingHidden⟩
    · cases herror.symm.trans hok
  · rcases place.store_cases value m with ⟨after, hstores⟩ | ⟨e, herror⟩
    · cases hstores.ends.symm.trans hfails
    · cases herror.symm.trans hfails
      exact ⟨⟨e, rfl⟩, rfl⟩

end Place

end Tao
