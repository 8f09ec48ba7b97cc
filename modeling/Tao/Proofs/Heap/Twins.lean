/-
  Two heaps that differ in the names of their cells.

  Two runs that collect garbage at different times put the same cells into different slots, and one
  of them may have freed what the other still has.  Two arenas are TWINS under a relation of their
  handles if related handles were given out by both (`Issued`), if no handle has two partners, and
  if the cells of related handles are alike wherever both are there.

  Twins stay twins when a cell is made in both, when related cells are changed alike, and when
  either side frees cells.  A new handle must not have been given out before, so none of this holds
  beyond the last generation of a slot (`renewable`).
-/
import Tao.Proofs.Heap.Reach

namespace Tao.Arena

variable {kind : CellKind} {α : Type} {arena left right : Arena kind α} {handle a b : Handle kind}
  {rel : Handle kind → Handle kind → Prop} {alike alike' : α → α → Prop} {c d : α}

/-! ## Handles that were given out -/

/-- The occupant of the handle's slot has this handle, or an earlier one had. -/
def Issued (arena : Arena kind α) (handle : Handle kind) : Prop :=
  ∃ slot, arena.slots[handle.index]? = some slot ∧
    (handle.generation < slot.generation ∨
      handle.generation = slot.generation ∧ slot.value.isSome = true)

/-- May every slot be emptied once more?  Its generation must not be the last one. -/
def renewable (arena : Arena kind α) : Bool := arena.slots.all fun slot => slot.generation + 1 ≠ 0

/-- Generations that do not wrap around grow. -/
theorem lt_add_one_of_ne_zero {g : UInt32} (h : g + 1 ≠ 0) : g < g + 1 := by
  rw [UInt32.lt_iff_toNat_lt, UInt32.toNat_add]
  have hlt := g.toNat_lt
  have hne : (g.toNat + 1) % 2 ^ 32 ≠ 0 := fun hzero => h (by
    rw [← UInt32.toNat_inj, UInt32.toNat_add]
    exact hzero)
  rw [UInt32.toNat_one]
  omega

/-- What resolves was given out. -/
theorem issued_of_get? (h : arena.get? handle = some c) : arena.Issued handle := by
  obtain ⟨slot, hslot, hgeneration, hvalue⟩ := get?_eq_some_iff.1 h
  exact ⟨slot, hslot, .inr ⟨hgeneration.symm, by rw [hvalue]; rfl⟩⟩

/-- A new handle names the next generation of its slot, which is vacant or not there. -/
theorem new_eq (h : arena.WellFormed) (value : α) {slot : Slot α}
    (hslot : arena.slots[(arena.insert value).2.index]? = some slot) :
    slot.generation = (arena.insert value).2.generation ∧ slot.value = none := by
  have hvacant := isOccupied_insert_eq_false h value
  unfold isOccupied at hvacant
  rw [hslot] at hvacant
  refine ⟨?_, by simpa using hvacant⟩
  obtain ⟨slots, free, live⟩ := arena
  cases free with
  | nil =>
    have hlt := (Array.getElem?_eq_some_iff.1 hslot).1
    exact absurd hlt (Nat.lt_irrefl _)
  | cons index free =>
    have hslot : slots[index]? = some slot := hslot
    simp only [insert, hslot]

/-- A new handle was never given out before: its generation is later than all that its slot had. -/
theorem not_issued_new (h : arena.WellFormed) (value : α) :
    ¬ arena.Issued (arena.insert value).2 := by
  rintro ⟨slot, hslot, hissued⟩
  obtain ⟨hgeneration, hvalue⟩ := new_eq h value hslot
  rcases hissued with hlt | ⟨-, hsome⟩
  · rw [hgeneration] at hlt
    exact absurd hlt (UInt32.lt_irrefl _)
  · rw [hvalue] at hsome
    cases hsome

/-- A new handle is given out by its insertion. -/
theorem issued_insert_self (h : arena.WellFormed) (value : α) :
    (arena.insert value).1.Issued (arena.insert value).2 :=
  issued_of_get? (get?_insert_self h value)

/-- An insertion takes no handle back. -/
theorem issued_insert (h : arena.WellFormed) (value : α) (hissued : arena.Issued handle) :
    (arena.insert value).1.Issued handle := by
  obtain ⟨slot, hslot, hhandle⟩ := hissued
  unfold Issued
  rw [getElem?_insert h]
  by_cases hindex : handle.index = (arena.insert value).2.index
  · rw [if_pos hindex]
    rw [hindex] at hslot
    obtain ⟨hgeneration, hvalue⟩ := new_eq h value hslot
    refine ⟨_, rfl, ?_⟩
    rcases hhandle with hlt | ⟨-, hsome⟩
    · exact .inl (hgeneration ▸ hlt)
    · rw [hvalue] at hsome
      cases hsome
  · rw [if_neg hindex]
    exact ⟨slot, hslot, hhandle⟩

/-- Nor does a change. -/
theorem issued_modify (f : α → α) (h : arena.Issued handle) :
    (arena.modify a f).Issued handle := by
  obtain ⟨slot, hslot, hhandle⟩ := h
  unfold Issued
  rw [getElem?_modify, hslot]
  refine ⟨_, rfl, ?_⟩
  dsimp only
  split
  · simpa using hhandle
  · exact hhandle

/-- Nor does a sweep, as long as generations do not wrap around. -/
theorem issued_sweep (hrenewable : arena.renewable = true) (marks : Array Bool)
    (h : arena.Issued handle) : (arena.sweep marks).1.Issued handle := by
  obtain ⟨slot, hslot, hhandle⟩ := h
  have hnext : slot.generation < slot.generation + 1 := by
    refine lt_add_one_of_ne_zero ?_
    have hmem := Array.mem_of_getElem? hslot
    simpa using Array.all_eq_true'.1 hrenewable slot hmem
  unfold Issued
  rw [getElem?_sweep]
  split
  · rw [hslot]
    refine ⟨_, rfl, .inl ?_⟩
    rcases hhandle with hlt | ⟨heq, -⟩
    · exact UInt32.lt_trans hlt hnext
    · rw [heq]
      exact hnext
  · exact ⟨slot, hslot, hhandle⟩

/-! ## Freeing -/

/-- Cells may have been freed, and nothing else has happened. -/
structure Shrinks (before after : Arena kind α) : Prop where
  wellFormed : after.WellFormed
  issued : ∀ handle, before.Issued handle → after.Issued handle
  get? : ∀ handle value, after.get? handle = some value → before.get? handle = some value

/-- Freeing nothing. -/
theorem Shrinks.refl (h : arena.WellFormed) : arena.Shrinks arena :=
  ⟨h, fun _ h => h, fun _ _ h => h⟩

/-- A sweep frees cells and does nothing else, as long as generations do not wrap around. -/
theorem shrinks_sweep (h : arena.WellFormed) (hrenewable : arena.renewable = true)
    (marks : Array Bool) : arena.Shrinks (arena.sweep marks).1 where
  wellFormed := wellFormed_sweep h marks
  issued _ := issued_sweep hrenewable marks
  get? handle value hget := by
    rw [get?_sweep] at hget
    split at hget
    · exact hget
    · cases hget

/-! ## Twins -/

/-- Two arenas that hold alike cells under related handles, as far as both hold them. -/
structure Twins (rel : Handle kind → Handle kind → Prop) (alike : α → α → Prop)
    (left right : Arena kind α) : Prop where
  wellFormed : left.WellFormed ∧ right.WellFormed
  issued : ∀ {a b}, rel a b → left.Issued a ∧ right.Issued b
  unique : ∀ {a b c d}, rel a b → rel c d → (a = c ↔ b = d)
  alike : ∀ {a b c d}, rel a b → left.get? a = some c → right.get? b = some d → alike c d

/-- Twins under a narrower notion of being alike are so under a wider one. -/
theorem Twins.mono (h : Twins rel alike left right) (halike : ∀ c d, alike c d → alike' c d) :
    Twins rel alike' left right :=
  ⟨h.wellFormed, h.issued, h.unique, fun hab hc hd => halike _ _ (h.alike hab hc hd)⟩

/-- Empty arenas are twins that have no partners. -/
theorem twins_empty : Twins (fun _ _ => False) alike (empty : Arena kind α) empty :=
  ⟨⟨wellFormed_empty, wellFormed_empty⟩, fun h => h.elim, fun h => h.elim, fun h => h.elim⟩

/-- Relates one more pair. -/
def Also (rel : Handle kind → Handle kind → Prop) (a b : Handle kind) :
    Handle kind → Handle kind → Prop :=
  fun a' b' => rel a' b' ∨ a' = a ∧ b' = b

/-- Making alike cells: their handles become partners. -/
theorem Twins.insert (h : Twins rel alike left right) (hcd : alike c d) :
    Twins (Also rel (left.insert c).2 (right.insert d).2) alike (left.insert c).1
      (right.insert d).1 := by
  have hleft := h.wellFormed.1
  have hright := h.wellFormed.2
  have hnewLeft : ∀ {a b}, rel a b → a ≠ (left.insert c).2 := fun hab heq =>
    not_issued_new hleft c (heq ▸ (h.issued hab).1)
  have hnewRight : ∀ {a b}, rel a b → b ≠ (right.insert d).2 := fun hab heq =>
    not_issued_new hright d (heq ▸ (h.issued hab).2)
  refine ⟨⟨wellFormed_insert hleft c, wellFormed_insert hright d⟩, ?_, ?_, ?_⟩
  · rintro a b (hab | ⟨rfl, rfl⟩)
    · exact ⟨issued_insert hleft c (h.issued hab).1, issued_insert hright d (h.issued hab).2⟩
    · exact ⟨issued_insert_self hleft c, issued_insert_self hright d⟩
  · rintro a b a' b' (hab | ⟨rfl, rfl⟩) (hab' | ⟨rfl, rfl⟩)
    · exact h.unique hab hab'
    · exact ⟨fun heq => absurd heq (hnewLeft hab), fun heq => absurd heq (hnewRight hab)⟩
    · exact ⟨fun heq => absurd heq.symm (hnewLeft hab'), fun heq => absurd heq.symm (hnewRight hab')⟩
    · exact ⟨fun _ => rfl, fun _ => rfl⟩
  · rintro a b c' d' (hab | ⟨rfl, rfl⟩) hc hd
    · rw [get?_insert hleft, if_neg (hnewLeft hab)] at hc
      rw [get?_insert hright, if_neg (hnewRight hab)] at hd
      exact h.alike hab hc hd
    · rw [get?_insert_self hleft] at hc
      rw [get?_insert_self hright] at hd
      cases hc
      cases hd
      exact hcd

/-- Changing the cells of partners in ways that leave them alike. -/
theorem Twins.modify (h : Twins rel alike left right) (hab : rel a b) {f g : α → α}
    (hfg : ∀ c d, alike c d → alike (f c) (g d)) :
    Twins rel alike (left.modify a f) (right.modify b g) := by
  refine ⟨⟨wellFormed_modify h.wellFormed.1 a f, wellFormed_modify h.wellFormed.2 b g⟩,
    fun hab => ⟨issued_modify f (h.issued hab).1, issued_modify g (h.issued hab).2⟩, h.unique, ?_⟩
  intro a' b' c' d' hab' hc hd
  rw [get?_modify] at hc hd
  by_cases ha : a' = a
  · have hb : b' = b := (h.unique hab' hab).1 ha
    subst ha hb
    rw [if_pos rfl] at hc hd
    obtain ⟨c, hold, rfl⟩ := Option.map_eq_some_iff.1 hc
    obtain ⟨d, hold', rfl⟩ := Option.map_eq_some_iff.1 hd
    exact hfg c d (h.alike hab hold hold')
  · have hb : b' ≠ b := fun hb => ha ((h.unique hab' hab).2 hb)
    rw [if_neg ha] at hc
    rw [if_neg hb] at hd
    exact h.alike hab' hc hd

/-- Freeing cells on either side. -/
theorem Twins.shrink (h : Twins rel alike left right) {left' right' : Arena kind α}
    (hleft : left.Shrinks left') (hright : right.Shrinks right') :
    Twins rel alike left' right' :=
  ⟨⟨hleft.wellFormed, hright.wellFormed⟩,
    fun hab => ⟨hleft.issued _ (h.issued hab).1, hright.issued _ (h.issued hab).2⟩, h.unique,
    fun hab hc hd => h.alike hab (hleft.get? _ _ hc) (hright.get? _ _ hd)⟩

end Tao.Arena
