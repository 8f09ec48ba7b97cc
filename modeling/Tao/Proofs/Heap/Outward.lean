/-
  Outward through the scopes.

  1. **Chains** — `outward n id` is the handle that is `n` parents outward from `id`.  All scopes
     before it are there; it may itself be stale.  The chains of a heap END if none of them goes on
     for ever.

  2. **Searches** — a search for a name PASSES the scopes that do not bind it.  It SETTLES at the
     nearest scope that binds it, at the outermost scope, or at a parent that is gone, and where it
     settles is a matter of the heap alone (`Settles.unique`).

  3. **The algorithm** — `resolve` walks outward with a step for every slot of the heap and one
     more.  Where the chains end it comes to what the search settles at.
-/
import Mathlib.Data.Nat.Find
import Tao.Proofs.Heap.Founded
import Tao.Proofs.Heap.Spots

namespace Tao.Heap

variable {heap before after : Heap} {id last parent owner : ScopeId} {name : String} {n m : Nat}
  {rank : ScopeId → Nat} {scope : Scope}

/-! ## Chains -/

/-- The scope around a scope that is there. -/
def parentOf (heap : Heap) (id : ScopeId) : Option ScopeId :=
  (heap.scopes.get? id).bind Scope.parent

/-- The handle that is so many parents outward. -/
def outward (heap : Heap) : Nat → ScopeId → Option ScopeId
  | 0, id => some id
  | n + 1, id => (heap.parentOf id).bind (heap.outward n)

/-- No chain of parents goes on for ever. -/
def ChainsEnd (heap : Heap) : Prop := ∀ id, ∃ n, heap.outward n id = none

/-- A handle has a parent if its scope is there and has one. -/
theorem parentOf_eq_some_iff : heap.parentOf id = some parent ↔
    ∃ scope, heap.scopes.get? id = some scope ∧ scope.parent = some parent :=
  Option.bind_eq_some_iff

/-- A chain goes first to the parent and then outward from there. -/
theorem outward_succ (n : Nat) (id : ScopeId) :
    heap.outward (n + 1) id = (heap.parentOf id).bind (heap.outward n) := rfl

/-- The same from a scope that is there. -/
theorem outward_succ_of_parent (hget : heap.scopes.get? id = some scope)
    (hparent : scope.parent = some parent) (n : Nat) :
    heap.outward (n + 1) id = heap.outward n parent := by
  rw [outward_succ, parentOf_eq_some_iff.2 ⟨scope, hget, hparent⟩]
  rfl

/-- Going outward in two stages comes to the same handle. -/
theorem outward_add (n m : Nat) (id : ScopeId) :
    heap.outward (n + m) id = (heap.outward n id).bind (heap.outward m) := by
  induction n generalizing id with
  | zero => rw [Nat.zero_add]; rfl
  | succ n ih =>
    rw [Nat.add_right_comm, outward_succ, outward_succ]
    cases heap.parentOf id with
    | none => rfl
    | some parent => exact ih parent

/-- Chains are a matter of the parents alone. -/
theorem outward_congr (hparents : ∀ id, after.parentOf id = before.parentOf id) (n : Nat)
    (id : ScopeId) : after.outward n id = before.outward n id := by
  induction n generalizing id with
  | zero => rfl
  | succ n ih =>
    rw [outward_succ, outward_succ, hparents]
    cases before.parentOf id with
    | none => rfl
    | some parent => exact ih parent

/-- Every step outward leads to a lower rank. -/
theorem rank_outward (hrank : heap.scopes.Descends rank) (h : heap.outward n id = some last) :
    rank last + n ≤ rank id := by
  induction n generalizing id with
  | zero =>
    cases h
    exact Nat.le_refl _
  | succ n ih =>
    obtain ⟨parent, hparent, hrest⟩ := Option.bind_eq_some_iff.1 h
    obtain ⟨scope, hget, hparent⟩ := parentOf_eq_some_iff.1 hparent
    have hlt := hrank id scope parent hget hparent
    have hle := ih hrest
    omega

/-- Every step outward leaves a slot behind: the number of slots that a scope ranks no lower than
    is a rank itself. -/
theorem card_outward (hrank : heap.scopes.Descends rank) (h : heap.outward n id = some last) :
    (heap.scopes.upTo rank (rank last)).card + n ≤ (heap.scopes.upTo rank (rank id)).card := by
  have hcard : heap.scopes.Descends fun id => (heap.scopes.upTo rank (rank id)).card :=
    fun id scope parent hget hparent =>
      Arena.card_upTo_lt hget (hrank id scope parent hget hparent)
  exact rank_outward hcard h

/-- With more steps than there are scopes, every chain has ended. -/
theorem outward_eq_none_of_occupied_lt (hrank : heap.scopes.Descends rank) (id : ScopeId)
    (hn : heap.scopes.occupied < n) : heap.outward n id = none := by
  refine Option.eq_none_iff_forall_ne_some.2 fun last h => ?_
  have hle := card_outward hrank h
  have hcount := heap.scopes.card_upTo_le_occupied rank (rank id)
  omega

/-- The scopes on the way to one that is there, and that one, have slots of their own. -/
theorem lt_occupied_of_outward (hrank : heap.scopes.Descends rank)
    (h : heap.outward n id = some last) (hthere : (heap.scopes.get? last).isSome = true) :
    n < heap.scopes.occupied := by
  obtain ⟨scope, hget⟩ := Option.isSome_iff_exists.1 hthere
  have hself : last.index ∈ heap.scopes.upTo rank (rank last) :=
    Arena.mem_upTo_iff.2 ⟨last, scope, hget, rfl, Nat.le_refl _⟩
  have hpos := Finset.card_pos.2 ⟨_, hself⟩
  have hle := card_outward hrank h
  have hcount := heap.scopes.card_upTo_le_occupied rank (rank id)
  omega

/-- Ranks are numbers, so a chain that goes down them ends. -/
theorem chainsEnd_of_descends (hrank : heap.scopes.Descends rank) : heap.ChainsEnd := by
  intro id
  refine ⟨rank id + 1, Option.eq_none_iff_forall_ne_some.2 fun last h => ?_⟩
  have hle := rank_outward hrank h
  omega

/-- In founded heaps chains end. -/
theorem chainsEnd_of_founded (h : heap.scopes.Founded) : heap.ChainsEnd :=
  let ⟨_, hrank⟩ := h
  chainsEnd_of_descends hrank.descends

/-- Where the chains end, the length of its chain ranks a scope above the one around it. -/
theorem ChainsEnd.descends (h : heap.ChainsEnd) : ∃ rank, heap.scopes.Descends rank := by
  classical
  refine ⟨fun id => Nat.find (h id), fun id scope parent hget hparent => ?_⟩
  have hstep := outward_succ_of_parent hget hparent
  have hend := Nat.find_spec (h id)
  show Nat.find (h parent) < Nat.find (h id)
  generalize Nat.find (h id) = length at hend
  cases length with
  | zero => cases hend
  | succ n =>
    rw [hstep] at hend
    exact Nat.lt_succ_of_le (Nat.find_min' (h parent) hend)

/-- A chain that ends does not come back to where it was. -/
theorem ChainsEnd.outward_ne (h : heap.ChainsEnd) {i j : Nat} (hij : i < j)
    (hi : heap.outward i id = some parent) : heap.outward j id ≠ some parent := by
  intro hj
  obtain ⟨rank, hrank⟩ := h.descends
  rw [show j = i + (j - i) by omega, outward_add, hi] at hj
  have hle := rank_outward hrank hj
  omega

/-! ## Searches -/

/-- From a scope, `n` parents outward, a search for the name comes to this handle: no scope before
    binds the name. -/
structure Passes (heap : Heap) (name : String) (id : ScopeId) (n : Nat) (last : ScopeId) :
    Prop where
  outward : heap.outward n id = some last
  free : ∀ i < n, ∀ inner, heap.outward i id = some inner →
    heap.valueAt (.binding inner name) = none

/-- Where a search for a name may end. -/
inductive Ends (heap : Heap) (name : String) (last : ScopeId) : Resolution → Prop where
  | bound {value : Value} (hvalue : heap.valueAt (.binding last name) = some value) :
    Ends heap name last (.bound last value)
  | unbound {scope : Scope} (hget : heap.scopes.get? last = some scope)
    (hfree : scope.get? name = none) (houtermost : scope.parent = none) :
    Ends heap name last (.unbound scope)
  | stale (hgone : heap.scopes.get? last = none) : Ends heap name last (.stale last)

/-- The search for a name from a scope comes to this. -/
def Settles (heap : Heap) (id : ScopeId) (name : String) (result : Resolution) : Prop :=
  ∃ n last, heap.Passes name id n last ∧ heap.Ends name last result

/-- This is the nearest scope outward that binds the name. -/
def Nearest (heap : Heap) (id : ScopeId) (name : String) (owner : ScopeId) : Prop :=
  ∃ n, heap.Passes name id n owner ∧ (heap.valueAt (.binding owner name)).isSome = true

/-- No scope outward binds the name, and this is the outermost one. -/
def Unbound (heap : Heap) (id : ScopeId) (name : String) (outermost : ScopeId) : Prop :=
  ∃ n scope, heap.Passes name id n outermost ∧ heap.scopes.get? outermost = some scope ∧
    scope.get? name = none ∧ scope.parent = none

/-- A search begins where it is. -/
theorem passes_zero (name : String) (id : ScopeId) : heap.Passes name id 0 id :=
  ⟨rfl, fun _ hi => absurd hi (Nat.not_lt_zero _)⟩

/-- What a scope that is there binds a name to. -/
theorem valueAt_of_get? (hget : heap.scopes.get? id = some scope) (name : String) :
    heap.valueAt (.binding id name) = scope.get? name := by
  rw [valueAt_binding, hget]
  rfl

/-- A search from an inner scope that does not bind the name goes on with the search from its
    parent. -/
theorem Passes.further (h : heap.Passes name parent n last)
    (hget : heap.scopes.get? id = some scope) (hfree : scope.get? name = none)
    (hparent : scope.parent = some parent) : heap.Passes name id (n + 1) last := by
  have hstep := outward_succ_of_parent hget hparent
  refine ⟨(hstep n).trans h.outward, fun i hi inner hinner => ?_⟩
  cases i with
  | zero =>
    cases hinner
    exact (valueAt_of_get? hget name).trans hfree
  | succ i => exact h.free i (by omega) inner ((hstep i).symm.trans hinner)

/-- The first step of a search that goes on. -/
theorem Passes.exists_parent (h : heap.Passes name id (n + 1) last) :
    ∃ scope parent, heap.scopes.get? id = some scope ∧ scope.get? name = none ∧
      scope.parent = some parent ∧ heap.Passes name parent n last := by
  obtain ⟨parent, hparentOf, hrest⟩ := Option.bind_eq_some_iff.1 h.outward
  obtain ⟨scope, hget, hparent⟩ := parentOf_eq_some_iff.1 hparentOf
  have hfirst := h.free 0 (Nat.succ_pos n) id rfl
  rw [valueAt_of_get? hget] at hfirst
  refine ⟨scope, parent, hget, hfirst, hparent, hrest, fun i hi inner hinner => ?_⟩
  exact h.free (i + 1) (by omega) inner ((outward_succ_of_parent hget hparent i).trans hinner)

/-! ## Names that are found

Where a name is found, it is found within as many steps as there are slots, also if chains of other
scopes should not end: whatever were met twice on the way, the search would have found the name
sooner. -/

/-- On the way to a binding no handle is met twice: going round, the search would have come to the
    binding before. -/
theorem Passes.outward_ne (h : heap.Passes name id n owner)
    (hbound : (heap.valueAt (.binding owner name)).isSome = true) {i j : Nat} (hij : i < j)
    (hj : j ≤ n) (hi : heap.outward i id = some parent) : heap.outward j id ≠ some parent := by
  intro hagain
  have hlater : heap.outward (n - j) parent = some owner := by
    have hall := h.outward
    rw [show n = j + (n - j) by omega, outward_add, hagain] at hall
    exact hall
  have hsooner : heap.outward (i + (n - j)) id = some owner := by
    rw [outward_add, hi]
    exact hlater
  rw [h.free (i + (n - j)) (by omega) owner hsooner] at hbound
  cases hbound

/-- On the way to a binding all scopes are there. -/
theorem Passes.exists_scope (h : heap.Passes name id n owner)
    (hbound : (heap.valueAt (.binding owner name)).isSome = true) {i : Nat} (hi : i ≤ n) :
    ∃ inner scope, heap.outward i id = some inner ∧ heap.scopes.get? inner = some scope := by
  obtain ⟨k, rfl⟩ := Nat.exists_eq_add_of_le hi
  have hall := h.outward
  rw [outward_add] at hall
  obtain ⟨inner, hinner, hrest⟩ := Option.bind_eq_some_iff.1 hall
  cases k with
  | zero =>
    obtain rfl : inner = owner := Option.some.inj hrest
    obtain ⟨old, hvalue⟩ := Option.isSome_iff_exists.1 hbound
    obtain ⟨scope, hget, -⟩ := Option.bind_eq_some_iff.1 hvalue
    exact ⟨inner, scope, hinner, hget⟩
  | succ k =>
    obtain ⟨parent, hparent, -⟩ := Option.bind_eq_some_iff.1 hrest
    obtain ⟨scope, hget, -⟩ := parentOf_eq_some_iff.1 hparent
    exact ⟨inner, scope, hinner, hget⟩

/-- The way to a binding has fewer steps than the heap has slots, as no slot is met twice. -/
theorem Passes.lt_size (h : heap.Passes name id n owner)
    (hbound : (heap.valueAt (.binding owner name)).isSome = true) :
    n < heap.scopes.slots.size := by
  -- the scopes on the way all differ, and so do their slots
  let slot : Nat → Nat := fun i => ((heap.outward i id).map Handle.index).getD 0
  have hmet : ∀ i ∈ Finset.range (n + 1), ∃ inner scope, heap.outward i id = some inner ∧
      heap.scopes.get? inner = some scope ∧ slot i = inner.index := by
    intro i hi
    obtain ⟨inner, scope, hinner, hget⟩ :=
      h.exists_scope hbound (Nat.le_of_lt_succ (Finset.mem_range.1 hi))
    refine ⟨inner, scope, hinner, hget, ?_⟩
    show ((heap.outward i id).map Handle.index).getD 0 = inner.index
    rw [hinner]
    rfl
  have hcard := Finset.card_le_card_of_injOn (s := Finset.range (n + 1))
    (t := Finset.range heap.scopes.slots.size) slot ?_ ?_
  · rwa [Finset.card_range, Finset.card_range] at hcard
  · intro i hi
    obtain ⟨inner, scope, -, hget, hslot⟩ := hmet i hi
    rw [hslot]
    exact Finset.mem_range.2 (Arena.lt_size_of_isOccupied (Arena.isOccupied_of_get? hget))
  · intro i hi j hj hsame
    obtain ⟨inner, scope, hinner, hget, hslot⟩ := hmet i hi
    obtain ⟨inner', scope', hinner', hget', hslot'⟩ := hmet j hj
    rw [hslot, hslot'] at hsame
    obtain rfl := Arena.eq_of_get?_of_index hget hget' hsame
    have hin := Nat.le_of_lt_succ (Finset.mem_range.1 hi)
    have hjn := Nat.le_of_lt_succ (Finset.mem_range.1 hj)
    rcases Nat.lt_trichotomy i j with hlt | heq | hlt
    · exact absurd hinner' (h.outward_ne hbound hlt hjn hinner)
    · exact heq
    · exact absurd hinner (h.outward_ne hbound hlt hin hinner')

/-! ## The algorithm -/

/-- With steps enough, walking outward comes to where the search settles. -/
theorem resolveWithin_of_passes {steps : Nat} {result : Resolution}
    (hpasses : heap.Passes name id n last) (hends : heap.Ends name last result)
    (hsteps : n < steps) : heap.resolveWithin name steps id = result := by
  induction n generalizing id steps with
  | zero =>
    obtain ⟨steps, rfl⟩ : ∃ k, steps = k + 1 := ⟨steps - 1, by omega⟩
    obtain rfl : id = last := Option.some.inj hpasses.outward
    unfold resolveWithin
    cases hends with
    | bound hvalue =>
      obtain ⟨scope, hget, hvalue⟩ := Option.bind_eq_some_iff.1 hvalue
      simp only [hget, hvalue]
    | unbound hget hfree houtermost => simp only [hget, hfree, houtermost]
    | stale hgone => simp only [hgone]
  | succ n ih =>
    obtain ⟨steps, rfl⟩ : ∃ k, steps = k + 1 := ⟨steps - 1, by omega⟩
    obtain ⟨scope, parent, hget, hfree, hparent, hrest⟩ := hpasses.exists_parent
    unfold resolveWithin
    simp only [hget, hfree, hparent]
    exact ih hrest (by omega)

/-- The nearest binding is the one that a name resolves to. -/
theorem Nearest.exists_resolve_eq (h : heap.Nearest id name owner) :
    ∃ value, heap.resolve id name = .bound owner value := by
  obtain ⟨n, hpasses, hbound⟩ := h
  obtain ⟨value, hvalue⟩ := Option.isSome_iff_exists.1 hbound
  exact ⟨value, resolveWithin_of_passes hpasses (.bound hvalue)
    (Nat.lt_succ_of_lt (hpasses.lt_size hbound))⟩

/-- A walk that ends has come to where the search settles.  Induction on the steps. -/
theorem exists_passes_of_resolveWithin {steps : Nat}
    (h : heap.resolveWithin name steps id ≠ .endless) :
    ∃ n < steps, ∃ last, heap.Passes name id n last ∧
      heap.Ends name last (heap.resolveWithin name steps id) := by
  induction steps generalizing id with
  | zero => exact absurd rfl h
  | succ steps ih =>
    unfold resolveWithin at h ⊢
    cases hget : heap.scopes.get? id with
    | none => exact ⟨0, Nat.succ_pos _, id, passes_zero name id, .stale hget⟩
    | some scope =>
      simp only [hget] at h ⊢
      cases hname : scope.get? name with
      | some value =>
        have hvalue := (valueAt_of_get? hget name).trans hname
        exact ⟨0, Nat.succ_pos _, id, passes_zero name id, .bound hvalue⟩
      | none =>
        simp only [hname] at h ⊢
        cases hparent : scope.parent with
        | none => exact ⟨0, Nat.succ_pos _, id, passes_zero name id, .unbound hget hname hparent⟩
        | some parent =>
          simp only [hparent] at h
          obtain ⟨n, hn, last, hpasses, hends⟩ := ih h
          exact ⟨n + 1, by omega, last, hpasses.further hget hname hparent, hends⟩

/-- A search settles at one thing only. -/
theorem Settles.unique {result result' : Resolution} (h : heap.Settles id name result)
    (h' : heap.Settles id name result') : result = result' := by
  obtain ⟨n, last, hpasses, hends⟩ := h
  obtain ⟨n', last', hpasses', hends'⟩ := h'
  have hresult : heap.resolveWithin name (n + n' + 1) id = result :=
    resolveWithin_of_passes hpasses hends (by omega)
  have hresult' : heap.resolveWithin name (n + n' + 1) id = result' :=
    resolveWithin_of_passes hpasses' hends' (by omega)
  rw [← hresult, hresult']

/-- Where chains end, the steps that `resolve` has are enough. -/
theorem ChainsEnd.resolve_ne_endless (h : heap.ChainsEnd) (id : ScopeId) (name : String) :
    heap.resolve id name ≠ .endless := by
  obtain ⟨rank, hrank⟩ := h.descends
  exact resolveWithin_ne_endless_of_occupied_lt hrank name id
    (Nat.lt_succ_of_le heap.scopes.occupied_le_size)

/-- So `resolve` comes to where the search settles. -/
theorem ChainsEnd.settles (h : heap.ChainsEnd) (id : ScopeId) (name : String) :
    heap.Settles id name (heap.resolve id name) := by
  obtain ⟨n, -, last, hpasses, hends⟩ :=
    exists_passes_of_resolveWithin (h.resolve_ne_endless id name)
  exact ⟨n, last, hpasses, hends⟩

/-- Wherever a search can be shown to settle, this is what `resolve` gives. -/
theorem ChainsEnd.resolve_eq (h : heap.ChainsEnd) {result : Resolution}
    (hsettles : heap.Settles id name result) : heap.resolve id name = result :=
  (h.settles id name).unique hsettles

end Tao.Heap
