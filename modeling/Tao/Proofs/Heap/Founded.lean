/-
  Scopes do not enclose themselves.

  A scope is made inside of one that is there already, and never moved.  So scopes can be ranked,
  each above the one around it, and a walk outward meets each slot at most once: with a step for
  every slot and one more it ends.
-/
import Mathlib.Data.Finset.Card
import Tao.Heap.Names
import Tao.Proofs.Heap.Twins

namespace Tao

namespace Arena

variable {scopes : Arena .scope Scope}

/-- Every scope ranks above the one around it. -/
def RankedBy (scopes : Arena .scope Scope) (rank : ScopeId → Nat) : Prop :=
  ∀ id s parent, scopes.get? id = some s → s.parent = some parent →
    scopes.Issued parent ∧ rank parent < rank id

/-- Every scope ranks above the one around it, whether that one was ever made or not. -/
def Descends (scopes : Arena .scope Scope) (rank : ScopeId → Nat) : Prop :=
  ∀ id s parent, scopes.get? id = some s → s.parent = some parent → rank parent < rank id

theorem RankedBy.descends {rank : ScopeId → Nat} (h : scopes.RankedBy rank) :
    scopes.Descends rank := fun id s parent hget hparent => (h id s parent hget hparent).2

/-- Scopes can be ranked. -/
def Founded (scopes : Arena .scope Scope) : Prop := ∃ rank, scopes.RankedBy rank

/-- Without scopes any rank will do. -/
theorem founded_empty : (empty : Arena .scope Scope).Founded :=
  ⟨fun _ => 0, fun _ _ _ hget => nomatch hget⟩

/-- A new scope ranks just above the one around it.  No other scope is inside of it yet, as its
    handle was never given out. -/
theorem Founded.insert (h : scopes.Founded) (hwf : scopes.WellFormed) {s : Scope}
    (hs : ∀ parent, s.parent = some parent → scopes.Issued parent) :
    (scopes.insert s).1.Founded := by
  obtain ⟨rank, hrank⟩ := h
  have hold : ∀ parent, scopes.Issued parent → parent ≠ (scopes.insert s).2 :=
    fun parent hissued heq => not_issued_new hwf s (heq ▸ hissued)
  refine ⟨fun id => if id = (scopes.insert s).2 then (s.parent.map rank).getD 0 + 1 else rank id,
    fun id t parent hget hparent => ?_⟩
  dsimp only
  rw [get?_insert hwf] at hget
  by_cases hid : id = (scopes.insert s).2
  · rw [if_pos hid] at hget
    cases hget
    have hissued := hs parent hparent
    refine ⟨issued_insert hwf s hissued, ?_⟩
    rw [if_pos hid, if_neg (hold parent hissued), hparent]
    exact Nat.lt_succ_self _
  · rw [if_neg hid] at hget
    obtain ⟨hissued, hlt⟩ := hrank id t parent hget hparent
    refine ⟨issued_insert hwf s hissued, ?_⟩
    rw [if_neg hid, if_neg (hold parent hissued)]
    exact hlt

/-- Changes that do not move a scope. -/
theorem Founded.modify (h : scopes.Founded) (a : ScopeId) {f : Scope → Scope}
    (hf : ∀ s, (f s).parent = s.parent) : (scopes.modify a f).Founded := by
  obtain ⟨rank, hrank⟩ := h
  refine ⟨rank, fun id t parent hget hparent => ?_⟩
  have hbefore : ∃ s, scopes.get? id = some s ∧ s.parent = some parent := by
    rw [get?_modify] at hget
    by_cases hid : id = a
    · rw [if_pos hid] at hget
      obtain ⟨s, hs, rfl⟩ := Option.map_eq_some_iff.1 hget
      exact ⟨s, hid ▸ hs, hf s ▸ hparent⟩
    · rw [if_neg hid] at hget
      exact ⟨t, hget, hparent⟩
  obtain ⟨s, hs, hsparent⟩ := hbefore
  exact ⟨issued_modify f (hrank id s parent hs hsparent).1, (hrank id s parent hs hsparent).2⟩

/-- What only loses occupants keeps its rank: nothing gets a new parent. -/
theorem Founded.shrink (h : scopes.Founded) {after : Arena .scope Scope}
    (hshrinks : scopes.Shrinks after) : after.Founded := by
  obtain ⟨rank, hrank⟩ := h
  refine ⟨rank, fun id s parent hget hparent => ?_⟩
  have hbefore := hrank id s parent (hshrinks.get? id s hget) hparent
  exact ⟨hshrinks.issued parent hbefore.1, hbefore.2⟩

open scoped Classical in
/-- The slots of the scopes up to a rank. -/
noncomputable def upTo (scopes : Arena .scope Scope) (rank : ScopeId → Nat) (r : Nat) :
    Finset Nat :=
  (Finset.range scopes.slots.size).filter fun index =>
    ∃ id s, scopes.get? id = some s ∧ id.index = index ∧ rank id ≤ r

/-- A slot is up to a rank if it holds a scope that is. -/
theorem mem_upTo_iff {rank : ScopeId → Nat} {r index : Nat} :
    index ∈ scopes.upTo rank r ↔
      ∃ id s, scopes.get? id = some s ∧ id.index = index ∧ rank id ≤ r := by
  classical
  unfold upTo
  rw [Finset.mem_filter, Finset.mem_range]
  constructor
  · exact And.right
  · rintro ⟨id, s, hget, rfl, hle⟩
    exact ⟨lt_size_of_isOccupied (isOccupied_of_get? hget), id, s, hget, rfl, hle⟩

/-- The slots up to a rank are occupied ones. -/
theorem card_upTo_le_occupied (scopes : Arena .scope Scope) (rank : ScopeId → Nat) (r : Nat) :
    (scopes.upTo rank r).card ≤ scopes.occupied := by
  unfold occupied
  rw [List.countP_eq_length_filter, ← List.toFinset_card_of_nodup
    (List.nodup_range.filter scopes.isOccupied)]
  refine Finset.card_le_card fun index hindex => ?_
  obtain ⟨id, s, hget, rfl, -⟩ := mem_upTo_iff.1 hindex
  have hoccupied := isOccupied_of_get? hget
  exact List.mem_toFinset.2 (List.mem_filter.2
    ⟨List.mem_range.2 (lt_size_of_isOccupied hoccupied), hoccupied⟩)

/-- There are no more occupied slots than slots. -/
theorem occupied_le_size (scopes : Arena .scope Scope) : scopes.occupied ≤ scopes.slots.size := by
  have hle := List.countP_le_length (p := scopes.isOccupied) (l := List.range scopes.slots.size)
  rwa [List.length_range] at hle

/-- The scope around another has fewer slots up to its rank: that of the inner scope is missing. -/
theorem card_upTo_lt {rank : ScopeId → Nat} {id parent : ScopeId} {s : Scope}
    (hget : scopes.get? id = some s) (hlt : rank parent < rank id) :
    (scopes.upTo rank (rank parent)).card < (scopes.upTo rank (rank id)).card := by
  refine Finset.card_lt_card (Finset.ssubset_iff_subset_ne.2 ⟨fun index hindex => ?_, fun heq => ?_⟩)
  · obtain ⟨other, t, hother, hat, hle⟩ := mem_upTo_iff.1 hindex
    exact mem_upTo_iff.2 ⟨other, t, hother, hat, hle.trans hlt.le⟩
  · have hself : id.index ∈ scopes.upTo rank (rank id) := mem_upTo_iff.2 ⟨id, s, hget, rfl, le_rfl⟩
    rw [← heq] at hself
    obtain ⟨other, t, hother, hat, hle⟩ := mem_upTo_iff.1 hself
    have hsame : other = id := eq_of_get?_of_index hother hget hat
    rw [hsame] at hle
    exact absurd hle (Nat.not_le.2 hlt)

end Arena

namespace Heap

variable {heap : Heap}

/-- A walk outward ends if it may take more steps than there are slots up to the rank of its first
    scope.  Induction on the steps. -/
theorem resolveWithin_ne_endless {rank : ScopeId → Nat} (hrank : heap.scopes.Descends rank)
    (name : String) {steps : Nat} {id : ScopeId}
    (hsteps : (heap.scopes.upTo rank (rank id)).card < steps) :
    heap.resolveWithin name steps id ≠ .endless := by
  induction steps generalizing id with
  | zero => exact absurd hsteps (Nat.not_lt_zero _)
  | succ steps ih =>
    unfold resolveWithin
    cases hget : heap.scopes.get? id with
    | none => exact nofun
    | some s =>
      dsimp only
      cases s.get? name with
      | some value => exact nofun
      | none =>
        dsimp only
        cases hparent : s.parent with
        | none => exact nofun
        | some parent =>
          have hlt := hrank id s parent hget hparent
          have hfewer := Arena.card_upTo_lt hget hlt
          exact ih (by omega)

/-- A walk outward ends if it may take more steps than there are scopes. -/
theorem resolveWithin_ne_endless_of_occupied_lt {rank : ScopeId → Nat}
    (hrank : heap.scopes.Descends rank) (name : String) {steps : Nat} (id : ScopeId)
    (hsteps : heap.scopes.occupied < steps) : heap.resolveWithin name steps id ≠ .endless :=
  resolveWithin_ne_endless hrank name
    (Nat.lt_of_le_of_lt (heap.scopes.card_upTo_le_occupied rank (rank id)) hsteps)

/-- A walk outward through founded scopes ends. -/
theorem resolve_ne_endless (h : heap.scopes.Founded) (id : ScopeId) (name : String) :
    heap.resolve id name ≠ .endless := by
  obtain ⟨rank, hrank⟩ := h
  exact resolveWithin_ne_endless_of_occupied_lt hrank.descends name id
    (Nat.lt_succ_of_le heap.scopes.occupied_le_size)

end Heap

end Tao
