/-
  Handles never alias and never come back.

  1. **Histories** — a HISTORY is an arena together with a record of all handles ever given out.
     Next to each handle the record says what it stands for: the value that was put in, with every
     change made under this handle since, or nothing once a sweep has taken the value away.  The
     record knows nothing of slots, generations and vacancies.

  2. **Specification** (`Faithful`) — the arena is all that the record says: no handle was given out
     twice, every handle resolves to what is recorded under it, and no other handle resolves.  The
     list of vacant slots and the count of occupied ones are right, too.

  3. **The crux** — a slot loses at most one value in a sweep, so its generation is at most the
     number of sweeps (`Sound.generations`).  As long as that is below `2 ^ 32`, a slot that is
     vacated gets a generation that none of its former handles has, and a handle given out stays
     `Issued`: it belongs to the occupant of its slot or to an earlier one.  (An index has no last
     value here; that there are fewer than `2 ^ 32` slots is what lets it be kept in 32 bits.)

  4. **Heaps** — a heap is three arenas, and its operations are operations on them; a collection
     sweeps all three.
-/
import Tao.Proofs.Heap.Twins

namespace Tao

namespace Arena

/-! ## Histories -/

/-- What can be done to an arena. -/
inductive Op (kind : CellKind) (α : Type) where
  | insert (value : α)
  /-- A change under a handle, which may well be stale. -/
  | modify (handle : Handle kind) (f : α → α)
  | sweep (marks : Array Bool)

namespace Op

variable {kind : CellKind} {α : Type}

/-- Is this a sweep? -/
def isSweep : Op kind α → Bool
  | .sweep _ => true
  | .insert _ | .modify _ _ => false

end Op

/-- An arena, and the record of what was done to it. -/
structure History (kind : CellKind) (α : Type) where
  arena : Arena kind α
  /-- All handles given out, last one first, and what they stand for: nothing once swept. -/
  record : List (Handle kind × Option α)
  sweeps : Nat

variable {kind : CellKind} {α : Type} {arena : Arena kind α} {handle : Handle kind}

namespace History

/-- Nothing was done yet. -/
def start : History kind α := ⟨.empty, [], 0⟩

/-- Does one thing more to the arena, and takes it down in the record. -/
def step (h : History kind α) : Op kind α → History kind α
  | .insert value =>
    let (arena, handle) := h.arena.insert value
    { h with arena, record := (handle, some value) :: h.record }
  | .modify handle f =>
    { h with
      arena := h.arena.modify handle f
      record := h.record.map fun (given, content) =>
        (given, if given = handle then content.map f else content) }
  | .sweep marks =>
    { arena := (h.arena.sweep marks).1
      record := h.record.map fun (given, content) =>
        (given, if marks.getD given.index false then content else none)
      sweeps := h.sweeps + 1 }

/-- All that is done to an arena that is empty at first. -/
def run (ops : List (Op kind α)) : History kind α := ops.foldl step start

/-- The handles ever given out. -/
def given (h : History kind α) : List (Handle kind) := h.record.map Prod.fst

/-- The arena is what its record says. -/
structure Faithful (h : History kind α) : Prop where
  /-- No handle was given out twice. -/
  distinct : h.given.Nodup
  /-- A handle that was given out resolves to what is recorded under it, or to nothing. -/
  resolves : ∀ handle content, (handle, content) ∈ h.record → h.arena.get? handle = content
  /-- A handle that was not given out does not resolve. -/
  unknown : ∀ handle, handle ∉ h.given → h.arena.get? handle = none
  /-- Every handle names a slot, so its index is as small as the slots are few. -/
  inSlots : ∀ handle ∈ h.given, handle.index < h.arena.slots.size
  /-- Every vacant slot is listed as vacant once, and no other slot is. -/
  vacant : h.arena.free.Nodup ∧ ∀ index, index ∈ h.arena.free ↔
    index < h.arena.slots.size ∧ h.arena.isOccupied index = false
  /-- A change under a handle that does not resolve changes nothing. -/
  stale : ∀ handle f, h.arena.get? handle = none → h.arena.modify handle f = h.arena
  /-- The occupied slots are counted. -/
  counted : h.arena.live = h.arena.occupied

/-! ## What every step keeps -/

/-- What makes an arena go on to be what its record says. -/
structure Sound (h : History kind α) : Prop where
  wellFormed : h.arena.WellFormed
  /-- No slot has lost more values than there were sweeps. -/
  generations : ∀ (index : Nat) (slot : Slot α), h.arena.slots[index]? = some slot →
    slot.generation.toNat ≤ h.sweeps
  distinct : h.given.Nodup
  issued : ∀ handle ∈ h.given, h.arena.Issued handle
  resolves : ∀ handle content, (handle, content) ∈ h.record → h.arena.get? handle = content
  unknown : ∀ handle, handle ∉ h.given → h.arena.get? handle = none

variable {h : History kind α}

/-- A change is made where the handle resolves, and nowhere else. -/
theorem modify_of_stale (arena : Arena kind α) (handle : Handle kind) (f : α → α)
    (hnone : arena.get? handle = none) : arena.modify handle f = arena := by
  have hslots : (arena.modify handle f).slots = arena.slots := by
    refine Array.ext_getElem? fun index => ?_
    rw [getElem?_modify]
    cases hslot : arena.slots[index]? with
    | none => rfl
    | some slot =>
      rw [Option.map_some]
      split
      case isFalse => rfl
      case isTrue hhere =>
        -- the slot is of the handle's generation, so it is vacant
        obtain ⟨rfl, hgeneration⟩ := hhere
        have hvacant : slot.value = none := by
          unfold get? at hnone
          rw [hslot] at hnone
          exact (if_pos hgeneration).symm.trans hnone
        obtain ⟨generation, value⟩ := slot
        obtain rfl : value = none := hvacant
        rfl
  obtain ⟨slots, free, live⟩ := arena
  exact congrArg (fun slots => Arena.mk slots free live) hslots

/-- Everything that is specified is kept by every step, or follows from what is. -/
theorem Sound.faithful (hs : h.Sound) : h.Faithful where
  distinct := hs.distinct
  resolves := hs.resolves
  unknown := hs.unknown
  inSlots handle hmem := by
    obtain ⟨slot, hslot, _⟩ := hs.issued handle hmem
    exact (Array.getElem?_eq_some_iff.1 hslot).1
  vacant := ⟨hs.wellFormed.nodup_free, hs.wellFormed.mem_free_iff⟩
  stale handle f hnone := modify_of_stale h.arena handle f hnone
  counted := hs.wellFormed.live_eq

/-- Nothing was done yet, so nothing can have gone wrong. -/
theorem sound_start : (start : History kind α).Sound where
  wellFormed := wellFormed_empty
  generations index slot hslot := by simp [start, empty] at hslot
  distinct := List.nodup_nil
  issued handle hmem := absurd hmem List.not_mem_nil
  resolves handle content hmem := absurd hmem List.not_mem_nil
  unknown handle _ := by simp [start, empty, get?]

/-- A new slot is in its first generation. -/
theorem generation_new_of_none {arena : Arena kind α} (hwf : arena.WellFormed) (value : α)
    (hnone : arena.slots[(arena.insert value).2.index]? = none) :
    (arena.insert value).2.generation = 0 := by
  obtain ⟨slots, free, live⟩ := arena
  cases free with
  | nil => rfl
  | cons vacant free =>
    -- a slot that is listed as vacant is there
    have hlt : vacant < slots.size := ((hwf.mem_free_iff vacant).1 List.mem_cons_self).1
    have hge : slots.size ≤ vacant := Array.getElem?_eq_none_iff.1 hnone
    omega

/-- An insertion gives out a handle that was not given out before. -/
theorem Sound.insert (hs : h.Sound) (value : α) : (h.step (.insert value)).Sound := by
  have hwf := hs.wellFormed
  have hget := get?_insert hwf value
  have hfresh : (h.arena.insert value).2 ∉ h.given := fun hmem =>
    not_issued_new hwf value (hs.issued _ hmem)
  refine ⟨wellFormed_insert hwf value, fun index slot hslot => ?_,
    List.nodup_cons.2 ⟨hfresh, hs.distinct⟩, fun handle hmem => ?_, fun handle content hmem => ?_,
    fun handle hmem => ?_⟩
  · -- the slot is as old as it was, or new
    have hslot : (h.arena.insert value).1.slots[index]? = some slot := hslot
    rw [getElem?_insert hwf] at hslot
    by_cases hindex : index = (h.arena.insert value).2.index
    · rw [if_pos hindex] at hslot
      cases hslot
      show (h.arena.insert value).2.generation.toNat ≤ h.sweeps
      cases hold : h.arena.slots[(h.arena.insert value).2.index]? with
      | some old =>
        have hsame := (new_eq hwf value hold).1
        rw [← hsame]
        exact hs.generations _ old hold
      | none =>
        rw [generation_new_of_none hwf value hold]
        exact Nat.zero_le _
    · rw [if_neg hindex] at hslot
      exact hs.generations index slot hslot
  · rcases List.mem_cons.1 hmem with rfl | hold
    · exact issued_insert_self hwf value
    · exact issued_insert hwf value (hs.issued handle hold)
  · show (h.arena.insert value).1.get? handle = content
    rw [hget]
    rcases List.mem_cons.1 hmem with heq | hold
    · obtain ⟨rfl, rfl⟩ := Prod.mk.inj heq
      exact if_pos rfl
    · have hne : handle ≠ (h.arena.insert value).2 := by
        rintro rfl
        exact hfresh (List.mem_map_of_mem (f := Prod.fst) hold)
      rw [if_neg hne]
      exact hs.resolves handle content hold
  · have hne : handle ≠ (h.arena.insert value).2 := by
      rintro rfl
      exact hmem List.mem_cons_self
    have hold : handle ∉ h.given := fun hold => hmem (List.mem_cons_of_mem _ hold)
    show (h.arena.insert value).1.get? handle = none
    rw [hget, if_neg hne]
    exact hs.unknown handle hold

/-- Changing what is recorded under handles leaves the handles given out. -/
theorem given_map (f : Handle kind → Option α → Option α) (record : List (Handle kind × Option α)) :
    (record.map fun (given, content) => (given, f given content)).map Prod.fst =
      record.map Prod.fst := by
  rw [List.map_map]
  rfl

/-- What is recorded after a step that changes contents only. -/
theorem mem_map_record {f : Handle kind → Option α → Option α} {content : Option α}
    {record : List (Handle kind × Option α)}
    (hmem : (handle, content) ∈ record.map fun (given, content) => (given, f given content)) :
    ∃ before, (handle, before) ∈ record ∧ f handle before = content := by
  obtain ⟨⟨given, before⟩, hbefore, heq⟩ := List.mem_map.1 hmem
  obtain ⟨rfl, hcontent⟩ := Prod.mk.inj heq
  exact ⟨before, hbefore, hcontent⟩

/-- A change under a handle concerns this one alone. -/
theorem Sound.modify (hs : h.Sound) (target : Handle kind) (f : α → α) :
    (h.step (.modify target f)).Sound := by
  have hgiven : (h.step (.modify target f)).given = h.given :=
    given_map (fun given content => if given = target then content.map f else content) h.record
  have hget := fun other => get?_modify h.arena target other f
  refine ⟨wellFormed_modify hs.wellFormed target f, fun index slot hslot => ?_, ?_,
    fun handle hmem => ?_, fun handle content hmem => ?_, fun handle hmem => ?_⟩
  -- generations stay as they are
  · have hslot : (h.arena.modify target f).slots[index]? = some slot := hslot
    rw [getElem?_modify] at hslot
    obtain ⟨old, hold, hnew⟩ := Option.map_eq_some_iff.1 hslot
    have hsame : slot.generation = old.generation := by
      rw [← hnew]
      split <;> rfl
    rw [hsame]
    exact hs.generations index old hold
  · rw [hgiven]
    exact hs.distinct
  · rw [hgiven] at hmem
    exact issued_modify f (hs.issued handle hmem)
  · obtain ⟨before, hbefore, hcontent⟩ :=
      mem_map_record (f := fun given content => if given = target then content.map f else content)
        hmem
    have hthere := hs.resolves handle before hbefore
    show (h.arena.modify target f).get? handle = content
    rw [hget, ← hcontent]
    by_cases htarget : handle = target
    · rw [if_pos htarget, if_pos htarget, ← htarget, hthere]
    · rw [if_neg htarget, if_neg htarget, hthere]
  · rw [hgiven] at hmem
    have hnone := hs.unknown handle hmem
    show (h.arena.modify target f).get? handle = none
    rw [hget]
    by_cases htarget : handle = target
    · rw [if_pos htarget, ← htarget, hnone]
      rfl
    · rw [if_neg htarget]
      exact hnone

/-- While there were few sweeps, no slot is in its last generation. -/
theorem Sound.renewable (hs : h.Sound) (hfew : h.sweeps + 1 < UInt32.size) :
    h.arena.renewable = true := by
  have hfew : h.sweeps + 1 < 4294967296 := hfew
  refine Array.all_eq_true'.2 fun slot hmem => ?_
  obtain ⟨index, hlt, rfl⟩ := Array.mem_iff_getElem.1 hmem
  have hle := hs.generations index _ (Array.getElem?_eq_getElem hlt)
  have hne : h.arena.slots[index].generation + 1 ≠ 0 := by
    intro hzero
    have htoNat := congrArg UInt32.toNat hzero
    rw [UInt32.toNat_add, UInt32.toNat_one, UInt32.toNat_zero] at htoNat
    omega
  exact decide_eq_true hne

/-- A sweep takes values away, and no handle of theirs comes back. -/
theorem Sound.sweep (hs : h.Sound) (marks : Array Bool) (hfew : h.sweeps + 1 < UInt32.size) :
    (h.step (.sweep marks)).Sound := by
  have hsmall : h.sweeps + 1 < 4294967296 := hfew
  have hgiven : (h.step (.sweep marks)).given = h.given :=
    given_map (fun given content => if marks.getD given.index false then content else none) h.record
  have hget := get?_sweep h.arena marks
  have hrenewable := hs.renewable hfew
  refine ⟨wellFormed_sweep hs.wellFormed marks, fun index slot hslot => ?_, ?_,
    fun handle hmem => ?_, fun handle content hmem => ?_, fun handle hmem => ?_⟩
  · have hslot : (h.arena.sweep marks).1.slots[index]? = some slot := hslot
    show slot.generation.toNat ≤ h.sweeps + 1
    rw [getElem?_sweep] at hslot
    -- a slot that is emptied is one generation older, after one sweep more
    split at hslot
    · obtain ⟨old, hold, rfl⟩ := Option.map_eq_some_iff.1 hslot
      have hle := hs.generations index old hold
      show (old.generation + 1).toNat ≤ h.sweeps + 1
      rw [UInt32.toNat_add, UInt32.toNat_one]
      omega
    · have hle := hs.generations index slot hslot
      omega
  · rw [hgiven]
    exact hs.distinct
  · rw [hgiven] at hmem
    exact issued_sweep hrenewable marks (hs.issued handle hmem)
  · obtain ⟨before, hbefore, hcontent⟩ :=
      mem_map_record (f := fun given content =>
        if marks.getD given.index false then content else none) hmem
    have hthere := hs.resolves handle before hbefore
    show (h.arena.sweep marks).1.get? handle = content
    rw [hget, ← hcontent, hthere]
  · rw [hgiven] at hmem
    have hnone := hs.unknown handle hmem
    show (h.arena.sweep marks).1.get? handle = none
    rw [hget, hnone]
    exact ite_self none

/-! ## Whole histories -/

/-- What a sound history becomes, as long as there are few sweeps. -/
theorem Sound.foldl (ops : List (Op kind α)) (hs : h.Sound)
    (hfew : h.sweeps + ops.countP Op.isSweep < UInt32.size) : (ops.foldl step h).Sound := by
  induction ops generalizing h with
  | nil => exact hs
  | cons op ops ih =>
    rw [List.countP_cons] at hfew
    rw [List.foldl_cons]
    cases op with
    | insert value => exact ih (hs.insert value) hfew
    | modify target f => exact ih (hs.modify target f) hfew
    | sweep marks =>
      have hmore : h.sweeps + 1 + ops.countP Op.isSweep < UInt32.size := by
        simp only [Op.isSweep, if_true] at hfew
        omega
      have hnow : h.sweeps + 1 < UInt32.size := by omega
      exact ih (hs.sweep marks hnow) hmore

/-- With few sweeps, whatever is done to an arena that is empty at first, its history is sound. -/
theorem sound_run (ops : List (Op kind α)) (hfew : ops.countP Op.isSweep < UInt32.size) :
    (run ops).Sound := by
  refine sound_start.foldl ops ?_
  show 0 + ops.countP Op.isSweep < UInt32.size
  omega

end History

end Arena

/-! ## Heaps -/

namespace Heap

/-- What can be done to a heap. -/
inductive Op where
  | addScope (scope : Scope)
  | addObject (cell : ObjectCell)
  | addArray (cell : ArrayCell)
  | modifyScope (id : ScopeId) (f : Scope → Scope)
  | modifyObject (id : ObjectId) (f : ObjectCell → ObjectCell)
  | modifyArray (id : ArrayId) (f : ArrayCell → ArrayCell)
  | collect (scopes : List ScopeId) (values : List Value)

namespace Op

/-- Is this a collection? -/
def isCollect : Op → Bool
  | .collect _ _ => true
  | _ => false

/-- Does this to a heap. -/
def apply (heap : Heap) : Op → Heap
  | .addScope scope => (heap.addScope scope).1
  | .addObject cell => (heap.addObject cell).1
  | .addArray cell => (heap.addArray cell).1
  | .modifyScope id f => heap.modifyScope id f
  | .modifyObject id f => heap.modifyObject id f
  | .modifyArray id f => heap.modifyArray id f
  | .collect scopes values => (heap.collect scopes values).1

end Op

/-- The histories of the three arenas of a heap. -/
structure History where
  scopes : Arena.History .scope Scope
  objects : Arena.History .object ObjectCell
  arrays : Arena.History .array ArrayCell

namespace History

/-- The heap that has this history. -/
def heap (h : History) : Heap := ⟨h.scopes.arena, h.objects.arena, h.arrays.arena⟩

/-- Nothing was done to the heap yet. -/
def start : History := ⟨.start, .start, .start⟩

/-- Does one thing more to the heap. -/
def step (h : History) : Op → History
  | .addScope scope => { h with scopes := h.scopes.step (.insert scope) }
  | .addObject cell => { h with objects := h.objects.step (.insert cell) }
  | .addArray cell => { h with arrays := h.arrays.step (.insert cell) }
  | .modifyScope id f => { h with scopes := h.scopes.step (.modify id f) }
  | .modifyObject id f => { h with objects := h.objects.step (.modify id f) }
  | .modifyArray id f => { h with arrays := h.arrays.step (.modify id f) }
  | .collect scopes values =>
    let marks := h.heap.reachable scopes values
    { scopes := h.scopes.step (.sweep marks.scopes)
      objects := h.objects.step (.sweep marks.objects)
      arrays := h.arrays.step (.sweep marks.arrays) }

/-- All that is done to a heap that is empty at first. -/
def run (ops : List Op) : History := ops.foldl step start

/-- Each arena is what its record says, and the cells of the heap are counted. -/
structure Faithful (h : History) : Prop where
  scopes : h.scopes.Faithful
  objects : h.objects.Faithful
  arrays : h.arrays.Faithful
  counted : h.heap.live =
    h.scopes.arena.occupied + h.objects.arena.occupied + h.arrays.arena.occupied

/-- What makes a heap go on to be what its records say. -/
structure Sound (h : History) (collections : Nat) : Prop where
  scopes : h.scopes.Sound
  objects : h.objects.Sound
  arrays : h.arrays.Sound
  swept : h.scopes.sweeps = collections ∧ h.objects.sweeps = collections ∧
    h.arrays.sweeps = collections

variable {h : History} {collections : Nat}

/-- The three records are right, and so is the count of all cells. -/
theorem Sound.faithful (hs : h.Sound collections) : h.Faithful where
  scopes := hs.scopes.faithful
  objects := hs.objects.faithful
  arrays := hs.arrays.faithful
  counted := by
    rw [← hs.scopes.faithful.counted, ← hs.objects.faithful.counted, ← hs.arrays.faithful.counted]
    rfl

/-- Doing something to the heap does it to the arenas. -/
theorem heap_step (h : History) (op : Op) : (h.step op).heap = op.apply h.heap := by
  cases op <;> rfl

/-- The heap of a whole history is what the operations make of an empty heap. -/
theorem heap_run (ops : List Op) : (run ops).heap = ops.foldl Op.apply .empty := by
  have hfold : ∀ h : History, (ops.foldl step h).heap = ops.foldl Op.apply h.heap := by
    induction ops with
    | nil => exact fun h => rfl
    | cons op ops ih =>
      intro h
      rw [List.foldl_cons, List.foldl_cons, ih, heap_step]
  exact hfold start

/-- Every operation is one on a single arena, or a sweep of all three. -/
theorem Sound.step (hs : h.Sound collections) (op : Op)
    (hfew : collections + (if op.isCollect then 1 else 0) < UInt32.size) :
    (h.step op).Sound (collections + if op.isCollect then 1 else 0) := by
  obtain ⟨hscopes, hobjects, harrays, hswept⟩ := hs
  cases op with
  | addScope scope => exact ⟨hscopes.insert scope, hobjects, harrays, hswept⟩
  | addObject cell => exact ⟨hscopes, hobjects.insert cell, harrays, hswept⟩
  | addArray cell => exact ⟨hscopes, hobjects, harrays.insert cell, hswept⟩
  | modifyScope id f => exact ⟨hscopes.modify id f, hobjects, harrays, hswept⟩
  | modifyObject id f => exact ⟨hscopes, hobjects.modify id f, harrays, hswept⟩
  | modifyArray id f => exact ⟨hscopes, hobjects, harrays.modify id f, hswept⟩
  | collect scopes values =>
    have hfew : collections + 1 < UInt32.size := hfew
    obtain ⟨hsame, hsame', hsame''⟩ := hswept
    refine ⟨hscopes.sweep _ ?_, hobjects.sweep _ ?_, harrays.sweep _ ?_, ?_⟩
    · rw [hsame]
      exact hfew
    · rw [hsame']
      exact hfew
    · rw [hsame'']
      exact hfew
    · exact ⟨congrArg (· + 1) hsame, congrArg (· + 1) hsame', congrArg (· + 1) hsame''⟩

/-- What a sound history becomes, as long as there are few collections.  Induction on the
    operations. -/
theorem Sound.foldl (ops : List Op) (hs : h.Sound collections)
    (hfew : collections + ops.countP Op.isCollect < UInt32.size) :
    (ops.foldl History.step h).Sound (collections + ops.countP Op.isCollect) := by
  induction ops generalizing h collections with
  | nil => exact hs
  | cons op ops ih =>
    rw [List.countP_cons] at hfew ⊢
    rw [List.foldl_cons]
    have hnow : collections + (if op.isCollect then 1 else 0) < UInt32.size := by omega
    have hrest := ih (hs.step op hnow) (by omega)
    have hsum : collections + (if op.isCollect then 1 else 0) + ops.countP Op.isCollect =
        collections + (ops.countP Op.isCollect + if op.isCollect then 1 else 0) := by omega
    rw [← hsum]
    exact hrest

/-- With few collections, whatever is done to a heap that is empty at first, its history is
    sound. -/
theorem sound_run (ops : List Op) (hfew : ops.countP Op.isCollect < UInt32.size) :
    (run ops).Sound (ops.countP Op.isCollect) := by
  have hstart : start.Sound 0 :=
    ⟨Arena.History.sound_start, Arena.History.sound_start, Arena.History.sound_start, rfl, rfl, rfl⟩
  have hrun := hstart.foldl ops (by omega)
  rw [Nat.zero_add] at hrun
  exact hrun

end History

/-- Handles never alias and never come back: whatever is done to an arena, or to a heap, with fewer
    than `2 ^ 32` sweeps, it is what the record of all handles ever given out says. -/
theorem handles_faithful :
    (∀ (kind : CellKind) (α : Type) (ops : List (Arena.Op kind α)),
      ops.countP Arena.Op.isSweep < UInt32.size → (Arena.History.run ops).Faithful) ∧
    ∀ ops : List Op, ops.countP Op.isCollect < UInt32.size →
      (History.run ops).Faithful ∧ (History.run ops).heap = ops.foldl Op.apply .empty := by
  constructor
  · intro kind α ops hfew
    exact (Arena.History.sound_run ops hfew).faithful
  · intro ops hfew
    exact ⟨(History.sound_run ops hfew).faithful, History.heap_run ops⟩

/-- A slot is vacated and reused, and the second value has a handle of its own; and what is done to
    a heap that is collected in between. -/
theorem handles_faithful_reuse :
    let ops : List (Arena.Op .scope Nat) := [.insert 1, .sweep #[false], .insert 2]
    let heapOps : List Op := [.addObject .empty, .collect [] [], .addObject .empty]
    (Arena.History.run ops).record = [(⟨0, 1⟩, some 2), (⟨0, 0⟩, none)] ∧
      (Arena.History.run ops).Faithful ∧ (History.run heapOps).Faithful := by
  intro ops heapOps
  have hfew : ops.countP Arena.Op.isSweep < UInt32.size := by decide
  have hfew' : heapOps.countP Op.isCollect < UInt32.size := by decide
  have hheap := handles_faithful.2 heapOps hfew'
  exact ⟨rfl, handles_faithful.1 .scope Nat ops hfew, hheap.1⟩

end Heap

end Tao
