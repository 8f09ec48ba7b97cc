/-
  Arenas, seen through their handles.

  All that the rest of the theory needs to know about slots is what each operation does to `get?`:

    * `get?_insert` — an insertion adds the one handle that it gives out;
    * `get?_modify` — a change touches the one handle that it names;
    * `get?_sweep`  — a sweep takes away the handles of unmarked slots, and nothing else.

  The last two hold of every arena.  The first needs `WellFormed`: the list of vacant slots names
  each vacant slot once and no other one, and the count of occupied slots is right.  Every operation
  keeps it, so it holds of every arena that operations can make.
-/
import Tao.Heap.Arena

namespace Tao

/-- A handle is its index and its generation. -/
theorem Handle.ext {kind : CellKind} {a b : Handle kind} (hindex : a.index = b.index)
    (hgeneration : a.generation = b.generation) : a = b := by
  cases a
  cases b
  cases hindex
  cases hgeneration
  rfl

namespace Arena

variable {kind : CellKind} {α : Type} {arena : Arena kind α} {handle : Handle kind} {value : α}

/-! ## Reading -/

/-- A handle resolves if its slot holds a value of its generation. -/
theorem get?_eq_some_iff : arena.get? handle = some value ↔
    ∃ slot, arena.slots[handle.index]? = some slot ∧ slot.generation = handle.generation ∧
      slot.value = some value := by
  unfold get?
  constructor
  · intro h
    split at h
    case h_1 slot hslot =>
      split at h
      case isTrue hgen => exact ⟨slot, hslot, hgen, h⟩
      case isFalse => cases h
    case h_2 => cases h
  · rintro ⟨slot, hslot, hgen, hvalue⟩
    rw [hslot]
    exact (if_pos hgen).trans hvalue

/-- Is this the index of an occupied slot? -/
def isOccupied (arena : Arena kind α) (index : Nat) : Bool :=
  match arena.slots[index]? with
  | some slot => slot.value.isSome
  | none => false

/-- An occupied slot is one that is there and holds a value. -/
theorem isOccupied_eq_true_iff {index : Nat} : arena.isOccupied index = true ↔
    ∃ slot value, arena.slots[index]? = some slot ∧ slot.value = some value := by
  unfold isOccupied
  cases arena.slots[index]? with
  | none => simp
  | some slot => simp [Option.isSome_iff_exists]

/-- Only slots that are there are occupied. -/
theorem lt_size_of_isOccupied {index : Nat} (h : arena.isOccupied index = true) :
    index < arena.slots.size := by
  obtain ⟨slot, _, hslot, _⟩ := isOccupied_eq_true_iff.1 h
  exact (Array.getElem?_eq_some_iff.1 hslot).1

/-- A slot is occupied if some handle of it resolves. -/
theorem isOccupied_of_get? (h : arena.get? handle = some value) :
    arena.isOccupied handle.index = true := by
  obtain ⟨slot, hslot, _, hvalue⟩ := get?_eq_some_iff.1 h
  exact isOccupied_eq_true_iff.2 ⟨slot, value, hslot, hvalue⟩

/-- At most one handle of a slot resolves. -/
theorem eq_of_get?_of_index {other : Handle kind} {v w : α} (h : arena.get? handle = some v)
    (h' : arena.get? other = some w) (hindex : handle.index = other.index) : handle = other := by
  obtain ⟨slot, hslot, hgen, _⟩ := get?_eq_some_iff.1 h
  obtain ⟨slot', hslot', hgen', _⟩ := get?_eq_some_iff.1 h'
  rw [hindex, hslot'] at hslot
  obtain rfl : slot' = slot := Option.some.inj hslot
  exact Handle.ext hindex (hgen.symm.trans hgen')

/-! ## Well-formed arenas -/

/-- How many slots are occupied. -/
def occupied (arena : Arena kind α) : Nat := (List.range arena.slots.size).countP arena.isOccupied

/-- What every arena made by operations is like. -/
structure WellFormed (arena : Arena kind α) : Prop where
  /-- No slot is listed as vacant twice. -/
  nodup_free : arena.free.Nodup
  /-- The slots listed as vacant are the vacant ones. -/
  mem_free_iff : ∀ index, index ∈ arena.free ↔
    index < arena.slots.size ∧ arena.isOccupied index = false
  /-- The slots counted as occupied are the occupied ones. -/
  live_eq : arena.live = arena.occupied

/-- The empty arena has no slots to get wrong. -/
theorem wellFormed_empty : (empty : Arena kind α).WellFormed :=
  ⟨List.nodup_nil, by simp [empty], by simp [empty, occupied]⟩

/-- Counting the places where two tests that differ at one place only succeed. -/
theorem countP_range_succ_of_eq_off {p q : Nat → Bool} {n i : Nat} (hi : i < n)
    (hp : p i = false) (hq : q i = true) (hoff : ∀ j, j ≠ i → q j = p j) :
    (List.range n).countP q = (List.range n).countP p + 1 := by
  induction n with
  | zero => exact absurd hi (Nat.not_lt_zero i)
  | succ n ih =>
    rw [List.range_succ, List.countP_append, List.countP_append]
    rcases Nat.lt_or_eq_of_le (Nat.le_of_lt_succ hi) with hlt | rfl
    · rw [ih hlt, List.countP_singleton, List.countP_singleton, hoff n (by omega)]
      omega
    · have heq : (List.range i).countP q = (List.range i).countP p :=
        List.countP_congr fun j hj => by
          rw [hoff j (Nat.ne_of_lt (List.mem_range.1 hj))]
      rw [heq, List.countP_singleton, List.countP_singleton, hp, hq]
      simp

/-! ## Insertions -/

/-- What an insertion does to the slots: the one that its handle names now holds the value, and the
    others are as they were. -/
theorem getElem?_insert (h : arena.WellFormed) (value : α) (index : Nat) :
    (arena.insert value).1.slots[index]? =
      if index = (arena.insert value).2.index then
        some ⟨(arena.insert value).2.generation, some value⟩
      else arena.slots[index]? := by
  obtain ⟨slots, free, live⟩ := arena
  cases free with
  | nil =>
    simp only [insert, Array.getElem?_push]
    rfl
  | cons vacant free =>
    have hvacant := ((h.mem_free_iff vacant).1 List.mem_cons_self).1
    simp only [insert, Array.getElem?_modify]
    by_cases hi : vacant = index
    · subst hi
      simp only [if_true, Array.getElem?_eq_getElem hvacant, Option.map_some]
    · exact (if_neg hi).trans (if_neg (Ne.symm hi)).symm

/-- The slot of a new handle was vacant, or was not there. -/
theorem isOccupied_insert_eq_false (h : arena.WellFormed) (value : α) :
    arena.isOccupied (arena.insert value).2.index = false := by
  obtain ⟨slots, free, live⟩ := arena
  cases free with
  | nil => simp [insert, isOccupied]
  | cons vacant free => exact ((h.mem_free_iff vacant).1 List.mem_cons_self).2

/-- Occupied after an insertion: what was, and the new handle's slot. -/
theorem isOccupied_insert (h : arena.WellFormed) (value : α) (index : Nat) :
    (arena.insert value).1.isOccupied index =
      (decide (index = (arena.insert value).2.index) || arena.isOccupied index) := by
  unfold isOccupied
  rw [getElem?_insert h]
  by_cases hi : index = (arena.insert value).2.index <;> simp [hi]

/-- An insertion adds the one handle that it gives out, and changes no other. -/
theorem get?_insert (h : arena.WellFormed) (value : α) (handle : Handle kind) :
    (arena.insert value).1.get? handle =
      if handle = (arena.insert value).2 then some value else arena.get? handle := by
  unfold get?
  rw [getElem?_insert h]
  by_cases hi : handle.index = (arena.insert value).2.index
  · rw [if_pos hi]
    by_cases hh : handle = (arena.insert value).2
    · simp [hh]
    · -- another handle of the same slot: the slot was vacant, so it did not resolve
      have hgen : (arena.insert value).2.generation ≠ handle.generation := fun hgen =>
        hh (Handle.ext hi hgen.symm)
      have hvacant := isOccupied_insert_eq_false h value
      rw [← hi] at hvacant
      unfold isOccupied at hvacant
      simp only [hgen, if_false, hh]
      cases hslot : arena.slots[handle.index]? with
      | none => rfl
      | some slot =>
        rw [hslot] at hvacant
        simp only at hvacant
        have hnone : slot.value = none := by simpa using hvacant
        simp [hnone]
  · have hh : handle ≠ (arena.insert value).2 := fun hh => hi (hh ▸ rfl)
    rw [if_neg hi, if_neg hh]

/-- A new handle resolves to the value that it was given out for. -/
theorem get?_insert_self (h : arena.WellFormed) (value : α) :
    (arena.insert value).1.get? (arena.insert value).2 = some value := by
  rw [get?_insert h, if_pos rfl]

/-- A new handle did not resolve before. -/
theorem get?_new (h : arena.WellFormed) (value : α) :
    arena.get? (arena.insert value).2 = none := by
  cases hget : arena.get? (arena.insert value).2 with
  | none => rfl
  | some old =>
    have := isOccupied_of_get? hget
    rw [isOccupied_insert_eq_false h] at this
    cases this

/-- An insertion that reuses a slot adds none. -/
theorem size_insert_of_free (slots : Array (Slot α)) (vacant : Nat) (free : List Nat) (live : Nat)
    (value : α) :
    (insert (⟨slots, vacant :: free, live⟩ : Arena kind α) value).1.slots.size = slots.size := by
  simp [insert]

/-- With nothing to reuse, every slot is occupied. -/
theorem isOccupied_of_free_nil {slots : Array (Slot α)} {live : Nat}
    (h : (⟨slots, [], live⟩ : Arena kind α).WellFormed) {i : Nat} (hi : i < slots.size) :
    isOccupied (⟨slots, [], live⟩ : Arena kind α) i = true := by
  cases hvacant : isOccupied (⟨slots, [], live⟩ : Arena kind α) i with
  | true => rfl
  | false => exact absurd ((h.mem_free_iff i).2 ⟨hi, hvacant⟩) List.not_mem_nil

/-- Inserting with nothing to reuse appends an occupied slot. -/
theorem wellFormed_insert_of_free_nil {slots : Array (Slot α)} {live : Nat}
    (h : (⟨slots, [], live⟩ : Arena kind α).WellFormed) (value : α) :
    (insert (⟨slots, [], live⟩ : Arena kind α) value).1.WellFormed := by
  have hocc := isOccupied_insert h value
  have hsize : (insert (⟨slots, [], live⟩ : Arena kind α) value).1.slots.size = slots.size + 1 :=
    Array.size_push ..
  refine ⟨List.nodup_nil, fun i => ⟨fun hi => absurd hi List.not_mem_nil, fun hi => ?_⟩, ?_⟩
  · rw [hocc, hsize] at hi
    obtain ⟨hne, hvacant⟩ := Bool.or_eq_false_iff.1 hi.2
    have hne : i ≠ slots.size := of_decide_eq_false hne
    have hlt := hi.1
    rw [isOccupied_of_free_nil h (by omega)] at hvacant
    cases hvacant
  · have hlive := h.live_eq
    simp only [occupied] at hlive ⊢
    show live + 1 = _
    have hold : (List.range slots.size).countP
          (insert (⟨slots, [], live⟩ : Arena kind α) value).1.isOccupied
        = (List.range slots.size).countP (isOccupied ⟨slots, [], live⟩) :=
      List.countP_congr fun i hi => by
        rw [hocc, isOccupied_of_free_nil h (List.mem_range.1 hi)]
        simp
    have hself : decide (slots.size = (insert (⟨slots, [], live⟩ : Arena kind α) value).2.index)
        = true := decide_eq_true rfl
    rw [hsize, List.range_succ, List.countP_append, List.countP_singleton, hocc, hold, hself,
      ← hlive]
    rfl

/-- Inserting into a slot that is reused occupies that slot. -/
theorem wellFormed_insert_of_free_cons {slots : Array (Slot α)} {vacant : Nat} {free : List Nat}
    {live : Nat} (h : (⟨slots, vacant :: free, live⟩ : Arena kind α).WellFormed) (value : α) :
    (insert (⟨slots, vacant :: free, live⟩ : Arena kind α) value).1.WellFormed := by
  have hocc := isOccupied_insert h value
  have hvacant := (h.mem_free_iff vacant).1 List.mem_cons_self
  have hnodup := List.nodup_cons.1 h.nodup_free
  refine ⟨hnodup.2, fun i => ?_, ?_⟩
  · rw [hocc, size_insert_of_free]
    show i ∈ free ↔ _
    constructor
    · intro hi
      have hold := (h.mem_free_iff i).1 (List.mem_cons_of_mem _ hi)
      have hne : i ≠ vacant := fun heq => hnodup.1 (heq ▸ hi)
      exact ⟨hold.1, by simp [insert, hne, hold.2]⟩
    · rintro ⟨hsize, hi⟩
      obtain ⟨hne, hold⟩ := Bool.or_eq_false_iff.1 hi
      exact (List.mem_cons.1 ((h.mem_free_iff i).2 ⟨hsize, hold⟩)).resolve_left
        (of_decide_eq_false hne)
  · have hcount : (List.range slots.size).countP
          (insert (⟨slots, vacant :: free, live⟩ : Arena kind α) value).1.isOccupied
        = (List.range slots.size).countP
          (isOccupied (⟨slots, vacant :: free, live⟩ : Arena kind α)) + 1 := by
      refine countP_range_succ_of_eq_off hvacant.1 hvacant.2 ?_ fun j hj => ?_
      · rw [hocc]
        simp [insert]
      · rw [hocc]
        simp [insert, hj]
    have hlive := h.live_eq
    simp only [occupied] at hlive ⊢
    show live + 1 = _
    rw [size_insert_of_free, hcount, ← hlive]

/-- An insertion keeps an arena well formed, whether it reuses a slot or appends one. -/
theorem wellFormed_insert (h : arena.WellFormed) (value : α) :
    (arena.insert value).1.WellFormed := by
  obtain ⟨slots, free, live⟩ := arena
  cases free with
  | nil => exact wellFormed_insert_of_free_nil h value
  | cons vacant free => exact wellFormed_insert_of_free_cons h value

/-! ## Changes -/

/-- What a change does to the slots: the one that its handle names has its value changed if the
    generation is the handle's, and the others are as they were. -/
theorem getElem?_modify (arena : Arena kind α) (handle : Handle kind) (f : α → α) (index : Nat) :
    (arena.modify handle f).slots[index]? = arena.slots[index]?.map fun slot =>
      if index = handle.index ∧ slot.generation = handle.generation then
        { slot with value := slot.value.map f }
      else slot := by
  show (arena.slots.modify handle.index _)[index]? = _
  rw [Array.getElem?_modify]
  by_cases hi : handle.index = index
  · subst hi
    simp
  · have hi' : index ≠ handle.index := Ne.symm hi
    simp [hi, hi']

/-- A change neither occupies a slot nor empties one. -/
@[simp] theorem isOccupied_modify (arena : Arena kind α) (handle : Handle kind) (f : α → α)
    (index : Nat) : (arena.modify handle f).isOccupied index = arena.isOccupied index := by
  unfold isOccupied
  rw [getElem?_modify]
  cases arena.slots[index]? with
  | none => rfl
  | some slot =>
    simp only [Option.map_some]
    split <;> simp

@[simp] theorem size_modify (arena : Arena kind α) (handle : Handle kind) (f : α → α) :
    (arena.modify handle f).slots.size = arena.slots.size := by
  simp [modify]

/-- A change touches the one handle that it names. -/
theorem get?_modify (arena : Arena kind α) (handle other : Handle kind) (f : α → α) :
    (arena.modify handle f).get? other =
      if other = handle then (arena.get? handle).map f else arena.get? other := by
  unfold get?
  rw [getElem?_modify]
  by_cases hh : other = handle
  · subst hh
    cases arena.slots[other.index]? with
    | none => simp
    | some slot => by_cases hgen : slot.generation = other.generation <;> simp [hgen]
  · cases hslot : arena.slots[other.index]? with
    | none => simp [hh]
    | some slot =>
      by_cases hgen : slot.generation = other.generation
      · have hoff : ¬(other.index = handle.index ∧ slot.generation = handle.generation) :=
          fun h => hh (Handle.ext h.1 (hgen.symm.trans h.2))
        simp only [Option.map_some, if_neg hoff, if_neg hh]
      · have hgen' : ¬(if other.index = handle.index ∧ slot.generation = handle.generation then
            { slot with value := slot.value.map f } else slot).generation = other.generation := by
          split <;> exact hgen
        simp [hh, hgen', hgen]

/-- Only what a change does to the one value matters. -/
theorem modify_congr {f g : α → α} (h : ∀ value, arena.get? handle = some value → f value = g value) :
    arena.modify handle f = arena.modify handle g := by
  unfold modify
  congr 1
  refine Array.ext_getElem? fun index => ?_
  rw [Array.getElem?_modify, Array.getElem?_modify]
  split
  · rename_i hindex
    subst hindex
    cases hslot : arena.slots[handle.index]? with
    | none => rfl
    | some slot =>
      by_cases hgen : slot.generation = handle.generation
      · cases hvalue : slot.value with
        | none => simp [hgen, hvalue]
        | some value =>
          have hget := get?_eq_some_iff.2 ⟨slot, hslot, hgen, hvalue⟩
          simp [hgen, hvalue, h value hget]
      · simp [hgen]
  · rfl

/-- A change that leaves the value as it is does nothing. -/
theorem modify_self (arena : Arena kind α) (handle : Handle kind) :
    arena.modify handle (fun value => value) = arena := by
  unfold modify
  have hslots : (arena.slots.modify handle.index fun slot =>
      if slot.generation = handle.generation then { slot with value := slot.value.map fun v => v }
      else slot) = arena.slots := by
    refine Array.ext_getElem? fun index => ?_
    rw [Array.getElem?_modify]
    split
    · simp
    · rfl
  rw [hslots]

/-- Two changes of one value are one. -/
theorem modify_modify (arena : Arena kind α) (handle : Handle kind) (f g : α → α) :
    (arena.modify handle f).modify handle g = arena.modify handle fun value => g (f value) := by
  unfold modify
  congr 1
  refine Array.ext_getElem? fun index => ?_
  rw [Array.getElem?_modify, Array.getElem?_modify, Array.getElem?_modify]
  split
  · cases arena.slots[index]? with
    | none => rfl
    | some slot =>
      by_cases hgen : slot.generation = handle.generation
      · simp [hgen, Function.comp_def]
      · simp [hgen]
  · rfl

/-- A change keeps an arena well formed: it moves no slot in or out of the vacant ones. -/
theorem wellFormed_modify (h : arena.WellFormed) (handle : Handle kind) (f : α → α) :
    (arena.modify handle f).WellFormed where
  nodup_free := h.nodup_free
  mem_free_iff index := by
    rw [size_modify, isOccupied_modify]
    exact h.mem_free_iff index
  live_eq := by
    unfold occupied
    rw [size_modify, funext fun i => isOccupied_modify arena handle f i]
    exact h.live_eq

/-! ## Sweeps -/

/-- Garbage are the occupied slots that are not marked. -/
theorem mem_garbage_iff {marks : Array Bool} {index : Nat} :
    index ∈ arena.garbage marks ↔
      arena.isOccupied index = true ∧ marks.getD index false = false := by
  unfold garbage
  rw [List.mem_filter, List.mem_range]
  unfold isGarbage isOccupied
  constructor
  · rintro ⟨hlt, h⟩
    rw [Array.getElem?_eq_getElem hlt] at h ⊢
    simpa using h
  · rintro ⟨h, hmark⟩
    refine ⟨lt_size_of_isOccupied h, ?_⟩
    cases hslot : arena.slots[index]? with
    | none => simp [hslot] at h
    | some slot =>
      rw [hslot] at h
      simp only at h
      simp only [h, hmark]
      rfl

/-- Emptying slots one after another, each once. -/
theorem getElem?_foldl_empty (indices : List Nat) (hnodup : indices.Nodup)
    (slots : Array (Slot α)) (index : Nat) :
    (indices.foldl
      (fun slots index => slots.modify index fun slot => ⟨slot.generation + 1, none⟩) slots)[index]?
      = if index ∈ indices then slots[index]?.map fun slot => ⟨slot.generation + 1, none⟩
        else slots[index]? := by
  induction indices generalizing slots with
  | nil => simp
  | cons first rest ih =>
    obtain ⟨hfirst, hrest⟩ := List.nodup_cons.1 hnodup
    rw [List.foldl_cons, ih hrest, Array.getElem?_modify]
    by_cases hi : first = index
    · subst hi
      simp [hfirst]
    · have hi' : index ≠ first := Ne.symm hi
      simp [hi, hi']

/-- No slot is emptied twice, which `getElem?_foldl_empty` asks for. -/
theorem nodup_garbage (marks : Array Bool) : (arena.garbage marks).Nodup :=
  List.nodup_range.filter _

/-- What a sweep does to the slots: the unmarked ones that were occupied are emptied, under a
    generation one higher, and the others are as they were. -/
theorem getElem?_sweep (arena : Arena kind α) (marks : Array Bool) (index : Nat) :
    (arena.sweep marks).1.slots[index]? =
      if arena.isOccupied index = true ∧ marks.getD index false = false then
        arena.slots[index]?.map fun slot => ⟨slot.generation + 1, none⟩
      else arena.slots[index]? := by
  have h := getElem?_foldl_empty (arena.garbage marks) (nodup_garbage marks) arena.slots index
  refine h.trans ?_
  simp only [mem_garbage_iff]

/-- Occupied after a sweep are the slots that were and are marked. -/
theorem isOccupied_sweep (arena : Arena kind α) (marks : Array Bool) (index : Nat) :
    (arena.sweep marks).1.isOccupied index =
      (arena.isOccupied index && marks.getD index false) := by
  show (match (arena.sweep marks).1.slots[index]? with
    | some slot => slot.value.isSome
    | none => false) = _
  rw [getElem?_sweep]
  by_cases hocc : arena.isOccupied index = true
  · obtain ⟨slot, value, hslot, hvalue⟩ := isOccupied_eq_true_iff.1 hocc
    cases hmark : marks.getD index false <;> simp [hocc, hslot, hvalue]
  · rw [if_neg fun h => hocc h.1]
    have hfalse : arena.isOccupied index = false := Bool.eq_false_iff.2 hocc
    rw [hfalse, Bool.false_and]
    exact hfalse

/-- A sweep takes away the handles of unmarked slots, and nothing else. -/
theorem get?_sweep (arena : Arena kind α) (marks : Array Bool) (handle : Handle kind) :
    (arena.sweep marks).1.get? handle =
      if marks.getD handle.index false = true then arena.get? handle else none := by
  unfold get?
  rw [getElem?_sweep]
  by_cases hmark : marks.getD handle.index false = true
  · rw [if_neg (by simp [hmark]), if_pos hmark]
  · rw [if_neg hmark]
    by_cases hocc : arena.isOccupied handle.index = true
    · rw [if_pos ⟨hocc, Bool.eq_false_iff.2 hmark⟩]
      cases arena.slots[handle.index]? <;> simp
    · rw [if_neg fun h => hocc h.1]
      -- the slot was vacant already
      unfold isOccupied at hocc
      cases hslot : arena.slots[handle.index]? with
      | none => rfl
      | some slot =>
        rw [hslot] at hocc
        have hnone : slot.value = none := by simpa using hocc
        simp [hnone]

/-- A sweep by marks that agree with a property of the handles that resolve. -/
theorem get?_sweep_of_iff {marks : Array Bool} {p : Prop} [Decidable p]
    (h : ∀ value, arena.get? handle = some value → (marks.getD handle.index false = true ↔ p)) :
    (arena.sweep marks).1.get? handle = if p then arena.get? handle else none := by
  rw [get?_sweep]
  cases hget : arena.get? handle with
  | none => simp
  | some value => simp only [h value hget]

/-- Emptying slots leaves the number of slots. -/
theorem size_foldl_empty (indices : List Nat) (slots : Array (Slot α)) :
    (indices.foldl
      (fun slots index => slots.modify index fun slot => ⟨slot.generation + 1, none⟩) slots).size
      = slots.size := by
  induction indices generalizing slots with
  | nil => rfl
  | cons first rest ih => rw [List.foldl_cons, ih, Array.size_modify]

/-- A sweep leaves the number of slots. -/
theorem size_sweep (arena : Arena kind α) (marks : Array Bool) :
    (arena.sweep marks).1.slots.size = arena.slots.size :=
  size_foldl_empty ..

/-- The indices of the slots that are occupied in one arena and no longer in another. -/
def freedSlots (before after : Arena kind α) : List Nat :=
  (List.range before.slots.size).filter fun index =>
    before.isOccupied index && !after.isOccupied index

/-- The slots that a sweep frees are the garbage. -/
theorem freedSlots_sweep (arena : Arena kind α) (marks : Array Bool) :
    arena.freedSlots (arena.sweep marks).1 = arena.garbage marks := by
  unfold freedSlots garbage
  refine List.filter_congr fun index hindex => ?_
  rw [isOccupied_sweep, Bool.eq_iff_iff]
  have h : index ∈ arena.garbage marks ↔ _ := mem_garbage_iff
  unfold garbage at h
  rw [List.mem_filter] at h
  have hgarbage : arena.isGarbage marks index = true ↔
      arena.isOccupied index = true ∧ marks.getD index false = false :=
    ⟨fun hg => h.1 ⟨hindex, hg⟩, fun hg => (h.2 hg).2⟩
  rw [hgarbage]
  cases arena.isOccupied index <;> cases marks.getD index false <;> simp

/-- What is occupied before a sweep is freed by it or occupied after it. -/
theorem occupied_sweep (arena : Arena kind α) (marks : Array Bool) :
    (arena.sweep marks).1.occupied + (arena.garbage marks).length = arena.occupied := by
  rw [← freedSlots_sweep]
  unfold occupied freedSlots
  rw [size_sweep, ← List.countP_eq_length_filter]
  generalize List.range arena.slots.size = indices
  induction indices with
  | nil => rfl
  | cons index rest ih =>
    simp only [List.countP_cons]
    have hle : (arena.sweep marks).1.isOccupied index = true → arena.isOccupied index = true := by
      rw [isOccupied_sweep, Bool.and_eq_true]
      exact And.left
    cases hafter : (arena.sweep marks).1.isOccupied index <;>
      cases hbefore : arena.isOccupied index
    · simpa using ih
    · simp
      omega
    · rw [hle hafter] at hbefore
      cases hbefore
    · simp
      omega

/-- A sweep keeps an arena well formed: what it empties it lists as vacant, and its count falls by
    as many. -/
theorem wellFormed_sweep (h : arena.WellFormed) (marks : Array Bool) :
    (arena.sweep marks).1.WellFormed where
  nodup_free := by
    refine List.nodup_append.2 ⟨List.pairwise_reverse.2 ((nodup_garbage marks).imp Ne.symm),
      h.nodup_free, ?_⟩
    rintro index hgarbage _ hfree rfl
    have hocc := (mem_garbage_iff.1 (List.mem_reverse.1 hgarbage)).1
    rw [((h.mem_free_iff index).1 hfree).2] at hocc
    cases hocc
  mem_free_iff index := by
    show index ∈ (arena.garbage marks).reverse ++ arena.free ↔ _
    rw [List.mem_append, List.mem_reverse, mem_garbage_iff, h.mem_free_iff, size_sweep,
      isOccupied_sweep]
    constructor
    · rintro (⟨hocc, hmark⟩ | ⟨hlt, hvacant⟩)
      · exact ⟨lt_size_of_isOccupied hocc, by rw [hmark, Bool.and_false]⟩
      · exact ⟨hlt, by rw [hvacant, Bool.false_and]⟩
    · rintro ⟨hlt, hand⟩
      cases hocc : arena.isOccupied index with
      | false => exact Or.inr ⟨hlt, rfl⟩
      | true => exact Or.inl ⟨rfl, by simpa [hocc] using hand⟩
  live_eq := by
    have hcount := occupied_sweep arena marks
    have hlive := h.live_eq
    show arena.live - (arena.garbage marks).length = _
    omega

/-- How a sweep that keeps the occupants that satisfy `stays` changes an arena. -/
structure SweptTo (before after : Arena kind α) (stays : Handle kind → Prop) : Prop where
  size_eq : after.slots.size = before.slots.size
  /-- Occupied afterwards are the slots that were occupied by something that stays. -/
  isOccupied_iff : ∀ index, after.isOccupied index = true ↔
    ∃ slot value, before.slots[index]? = some slot ∧ slot.value = some value ∧
      stays ⟨index, slot.generation⟩
  /-- What stays is still found under its handle, unchanged. -/
  get?_eq : ∀ handle, stays handle → after.get? handle = before.get? handle
  /-- What does not stay leaves a vacant slot of the next generation. -/
  freed : ∀ index slot value, before.slots[index]? = some slot → slot.value = some value →
    ¬stays ⟨index, slot.generation⟩ →
      after.slots[index]? = some ⟨slot.generation + 1, none⟩
  /-- Slots that were vacant, or whose occupants stay, are as they were. -/
  kept : ∀ index slot, before.slots[index]? = some slot →
    (slot.value = none ∨ stays ⟨index, slot.generation⟩) → after.slots[index]? = some slot

/-- A sweep by marks that agree with `stays` keeps what satisfies it. -/
theorem sweptTo_sweep {marks : Array Bool} {stays : Handle kind → Prop}
    (h : ∀ handle value, arena.get? handle = some value →
      (marks.getD handle.index false = true ↔ stays handle)) :
    arena.SweptTo (arena.sweep marks).1 stays := by
  -- marks are by slot and `stays` is by handle: the handle of an occupied slot is the one of its
  -- occupant
  have hslot : ∀ index slot value, arena.slots[index]? = some slot → slot.value = some value →
      (marks.getD index false = true ↔ stays ⟨index, slot.generation⟩) :=
    fun index slot value hslot hvalue =>
      h ⟨index, slot.generation⟩ value (get?_eq_some_iff.2 ⟨slot, hslot, rfl, hvalue⟩)
  refine ⟨size_sweep arena marks, fun index => ?_, fun handle hstays => ?_, ?_, ?_⟩
  · rw [isOccupied_sweep, Bool.and_eq_true]
    constructor
    · rintro ⟨hocc, hmark⟩
      obtain ⟨slot, value, hat, hvalue⟩ := isOccupied_eq_true_iff.1 hocc
      exact ⟨slot, value, hat, hvalue, (hslot index slot value hat hvalue).1 hmark⟩
    · rintro ⟨slot, value, hat, hvalue, hstays⟩
      exact ⟨isOccupied_eq_true_iff.2 ⟨slot, value, hat, hvalue⟩,
        (hslot index slot value hat hvalue).2 hstays⟩
  · rw [get?_sweep]
    cases hget : arena.get? handle with
    | none => exact ite_self none
    | some value => exact if_pos ((h handle value hget).2 hstays)
  · intro index slot value hat hvalue hstays
    have hocc := isOccupied_eq_true_iff.2 ⟨slot, value, hat, hvalue⟩
    have hmark := Bool.eq_false_iff.2 fun hmark =>
      hstays ((hslot index slot value hat hvalue).1 hmark)
    rw [getElem?_sweep, if_pos ⟨hocc, hmark⟩, hat]
    rfl
  · intro index slot hat hkept
    rw [getElem?_sweep, if_neg, hat]
    rintro ⟨hocc, hmark⟩
    obtain ⟨slot', value, hat', hvalue⟩ := isOccupied_eq_true_iff.1 hocc
    obtain rfl : slot = slot' := Option.some.inj (hat.symm.trans hat')
    rcases hkept with hvacant | hstays
    · rw [hvacant] at hvalue
      cases hvalue
    · rw [(hslot index slot value hat hvalue).2 hstays] at hmark
      cases hmark

/-- The count of occupied slots falls by what a sweep frees. -/
theorem live_sweep (h : arena.WellFormed) (marks : Array Bool) :
    (arena.sweep marks).1.live + (arena.sweep marks).2 = arena.live := by
  have hcount := occupied_sweep arena marks
  have hlive := h.live_eq
  show arena.live - (arena.garbage marks).length + (arena.garbage marks).length = _
  omega

end Arena

end Tao
