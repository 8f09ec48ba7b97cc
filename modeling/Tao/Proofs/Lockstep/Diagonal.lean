/-
  One machine on both sides.

  Where two evaluators are compared on the same machine, handles are paired with themselves.  A
  `Diagonal` is such a regime: it says which scopes are `fit` to be on the heap, and whether handles
  may be stale (`lasting`) or have to resolve.  What it demands of a machine is that all cells are
  alike to themselves, that is, that they refer to known handles and hold code of the given shape
  only, and that the scopes to come back to are there.

  In a diagonal regime a collection is harmless: whatever is pinned is reachable from the roots, so
  it survives and stays known.
-/
import Tao.Proofs.Heap.Cells
import Tao.Proofs.Lockstep.Run

namespace Tao

/-- A regime in which both machines are the same. -/
structure Diagonal where
  shape : Shape
  /-- May handles be stale? -/
  lasting : Prop
  /-- What holds of all scopes of the heap. -/
  fit : Scope → Prop
  admits : Halt RuntimeError → Prop
  excuses : Halt RuntimeError → Prop

namespace Diagonal

/-- Handles that may be referred to. -/
def Known (D : Diagonal) (heap : Heap) (node : Node) : Prop := D.lasting ∨ heap.Resolves node

/-- Known handles are paired with themselves. -/
def pairing (D : Diagonal) (heap : Heap) : Pairing where
  scope a b := a = b ∧ D.Known heap (.scope a)
  object a b := a = b ∧ D.Known heap (.object a)
  array a b := a = b ∧ D.Known heap (.array a)

/-- What a heap is like at all times. -/
structure Stores (D : Diagonal) (heap : Heap) : Prop where
  wellFormed : heap.WellFormed
  scopes : ∀ id s, heap.scopes.get? id = some s →
    Scope.Alike D.shape (D.pairing heap) s s ∧ D.fit s
  objects : ∀ id c, heap.objects.get? id = some c → ObjectCell.Alike D.shape (D.pairing heap) c c
  arrays : ∀ id c, heap.arrays.get? id = some c → ArrayCell.Alike D.shape (D.pairing heap) c c

/-- What a machine is like at all times. -/
structure Holds (D : Diagonal) (m : Machine) : Prop extends D.Stores m.heap where
  roots : ∀ id ∈ m.roots, m.heap.Resolves (.scope id)

/-- The regime of a diagonal. -/
def regime (D : Diagonal) : Regime where
  shape := D.shape
  lasting := D.lasting
  Sound j := j.left = j.right ∧ j.pairing = D.pairing j.left.heap ∧ D.Holds j.left
  AtFault m m' := m = m'
  admits := D.admits
  excusesLeft := D.excuses
  excusesRight _ := False

/-- The joint of a machine with itself. -/
def joint (D : Diagonal) (m : Machine) : Joint := ⟨D.pairing m.heap, m, m⟩

/-- What a diagonal has to satisfy. -/
structure Lawful (D : Diagonal) : Prop where
  admits : ∀ {e : RuntimeError}, e.category ≠ .internal → D.admits (.failed e)
  admitsStale : ∀ {kind : CellKind} {id : Handle kind}, D.lasting →
    D.admits (.failed (.staleHandle kind id))
  fitNew : ∀ {s : Scope}, s.signalled = false → D.fit s
  fitBindings : ∀ {s : Scope} {bindings : List (String × Value)}, D.fit s →
    D.fit { s with bindings }

variable {D : Diagonal} {heap heap' : Heap} {m : Machine} {u v : Value} {node : Node}

/-! ## Alike on the diagonal -/

/-- On the diagonal, values that are alike are the same. -/
theorem eq_of_alike (h : Value.Alike D.shape (D.pairing heap) u v) : u = v := by
  cases h with
  | object h => rw [h.1]
  | array h => rw [h.1]
  | function _ h => rw [h.1]
  | arrayMethod _ _ h => rw [h.1]
  | _ => rfl

/-- On the diagonal, properties and bindings that are alike are the same. -/
theorem eq_of_named {xs ys : List (String × Value)}
    (h : Named.Rel (Value.Alike D.shape (D.pairing heap)) xs ys) : xs = ys := by
  have heq := h.imp (S := Eq) fun a b hab => Prod.ext hab.1 (eq_of_alike hab.2)
  rwa [List.forall₂_eq_eq_eq] at heq

theorem eq_of_values {us vs : List Value}
    (h : List.Forall₂ (Value.Alike D.shape (D.pairing heap)) us vs) : us = vs := by
  have heq := h.imp (S := Eq) fun _ _ => eq_of_alike
  rwa [List.forall₂_eq_eq_eq] at heq

theorem eq_of_option {x y : Option Value}
    (h : Option.Rel (Value.Alike D.shape (D.pairing heap)) x y) : x = y := by
  cases h with
  | some h => rw [eq_of_alike h]
  | none => rfl

/-- On the diagonal, whole scopes, objects and arrays that are alike are the same, too. -/
theorem eq_of_scope {s t : Scope} (h : Scope.Alike D.shape (D.pairing heap) s t) : s = t := by
  obtain ⟨bindings, parent, broke, returned⟩ := s
  obtain ⟨bindings', parent', broke', returned'⟩ := t
  have hbindings : bindings = bindings' := eq_of_named h.bindings
  have hparent : parent = parent' := by
    have hrel : Option.Rel (D.pairing heap).scope parent parent' := h.parent
    cases hrel with
    | some hab => rw [hab.1]
    | none => rfl
  have hbroke : broke = broke' := h.broke
  have hreturned : returned = returned' := eq_of_option h.returned
  rw [hbindings, hparent, hbroke, hreturned]

theorem eq_of_object {c d : ObjectCell} (h : ObjectCell.Alike D.shape (D.pairing heap) c d) :
    c = d := by
  cases c
  cases d
  exact congrArg ObjectCell.mk (eq_of_named h)

theorem eq_of_array {c d : ArrayCell} (h : ArrayCell.Alike D.shape (D.pairing heap) c d) :
    c = d := by
  obtain ⟨elements, props⟩ := c
  obtain ⟨elements', props'⟩ := d
  have helements : elements = elements' := Array.ext' (eq_of_values h.elements)
  have hprops : props = props' := eq_of_named h.props
  rw [helements, hprops]

/-! ## Moving to another heap -/

/-- What is known stays known as long as it resolves. -/
theorem Known.mono (hkeep : ∀ node, heap.Resolves node → heap'.Resolves node)
    (h : D.Known heap node) : D.Known heap' node :=
  h.imp_right (hkeep node)

/-- Handles that resolve in one heap do in another: what is paired stays paired. -/
theorem pairing_within (hkeep : ∀ node, heap.Resolves node → heap'.Resolves node) :
    (D.pairing heap).Within (D.pairing heap') :=
  ⟨fun _ _ h => ⟨h.1, h.2.mono hkeep⟩, fun _ _ h => ⟨h.1, h.2.mono hkeep⟩,
    fun _ _ h => ⟨h.1, h.2.mono hkeep⟩⟩

/-- Two heaps in which the same handles resolve have the same pairing. -/
theorem pairing_eq (hsame : ∀ node, heap'.Resolves node ↔ heap.Resolves node) :
    D.pairing heap' = D.pairing heap := by
  unfold pairing Known
  simp only [hsame]

/-- A value stays alike to itself if all that it refers to stays known. -/
theorem alike_transfer (h : Value.Alike D.shape (D.pairing heap) u v)
    (hkeep : ∀ node, u.RefersTo node → D.Known heap node → D.Known heap' node) :
    Value.Alike D.shape (D.pairing heap') u v := by
  cases h with
  | object h => exact .object ⟨h.1, hkeep _ (.object _) h.2⟩
  | array h => exact .array ⟨h.1, hkeep _ (.array _) h.2⟩
  | function hcode h => exact .function hcode ⟨h.1, hkeep _ (.closure _) h.2⟩
  | arrayMethod stamp method h =>
    exact .arrayMethod stamp method ⟨h.1, hkeep _ (.receiver _ _ _) h.2⟩
  | nil => exact .nil
  | boolean b => exact .boolean b
  | number n => exact .number n
  | string s => exact .string s
  | print => exact .print
  | println => exact .println
  | len => exact .len
  | stringMethod stamp method receiver => exact .stringMethod stamp method receiver
  | maker m => exact .maker m

/-- What an alike value refers to is known. -/
theorem known_of_alike (h : Value.Alike D.shape (D.pairing heap) u v) (href : u.RefersTo node) :
    D.Known heap node := by
  cases h with
  | object h =>
    cases href
    exact h.2
  | array h =>
    cases href
    exact h.2
  | function _ h =>
    cases href
    exact h.2
  | arrayMethod _ _ h =>
    cases href
    exact h.2
  | _ => cases href

/-- Properties and bindings stay alike to themselves if all that their values refer to stays
    known. -/
theorem named_transfer {xs ys : List (String × Value)}
    (h : Named.Rel (Value.Alike D.shape (D.pairing heap)) xs ys)
    (hkeep : ∀ x ∈ xs, ∀ node, x.2.RefersTo node → D.Known heap node → D.Known heap' node) :
    Named.Rel (Value.Alike D.shape (D.pairing heap')) xs ys := by
  induction h with
  | nil => exact .nil
  | @cons x y _ _ hxy _ ih =>
    exact .cons ⟨hxy.1, alike_transfer hxy.2 (hkeep x List.mem_cons_self)⟩
      (ih fun x hx => hkeep x (List.mem_cons_of_mem _ hx))

/-- The same of lists of values. -/
theorem values_transfer {us vs : List Value}
    (h : List.Forall₂ (Value.Alike D.shape (D.pairing heap)) us vs)
    (hkeep : ∀ u ∈ us, ∀ node, u.RefersTo node → D.Known heap node → D.Known heap' node) :
    List.Forall₂ (Value.Alike D.shape (D.pairing heap')) us vs := by
  induction h with
  | nil => exact .nil
  | @cons u v _ _ huv _ ih =>
    exact .cons (alike_transfer huv (hkeep u List.mem_cons_self))
      (ih fun u hu => hkeep u (List.mem_cons_of_mem _ hu))

/-! ## Sound joints -/

/-- A sound joint is that of one machine with itself. -/
theorem sound_iff {j : Joint} : D.regime.Sound j ↔ ∃ m, j = D.joint m ∧ D.Holds m := by
  constructor
  · obtain ⟨p, m, m'⟩ := j
    intro hs
    obtain ⟨rfl, rfl, hholds⟩ : m = m' ∧ p = D.pairing m.heap ∧ D.Holds m := hs
    exact ⟨m, rfl, hholds⟩
  · rintro ⟨m, rfl, hholds⟩
    exact ⟨rfl, rfl, hholds⟩

/-- Only the heap and the roots of a machine matter. -/
theorem Holds.ofHeap {m m' : Machine} (h : D.Holds m) (hheap : m'.heap = m.heap)
    (hroots : ∀ id ∈ m'.roots, m.heap.Resolves (.scope id)) : D.Holds m' where
  toStores := hheap ▸ h.toStores
  roots := hheap ▸ hroots

/-! ## Collecting -/

section Collect

variable {scopes : List ScopeId} {values : List Value}

/-- What is reached stays known. -/
theorem known_collected (hreach : heap.Resolves node → heap.Reaches scopes values node)
    (h : D.Known heap node) : D.Known (heap.collected scopes values) node :=
  h.imp_right fun hthere => Heap.resolves_collected (hreach hthere)

/-- All cells of a collected heap are alike to themselves if those of the heap were. -/
theorem Stores.collected (h : D.Stores heap) : D.Stores (heap.collected scopes values) where
  wellFormed := h.wellFormed.collected scopes values
  scopes id s hget := by
    -- a cell that is left was reached, and so is what it refers to: whatever was known under
    -- its handles still is
    have hreach := Heap.reaches_of_resolves_collected (.scope id) ⟨s, hget⟩
    have hget : heap.scopes.get? id = some s := by
      classical
      rwa [Heap.get?_scopes_collect, if_pos hreach] at hget
    obtain ⟨halike, hfit⟩ := h.scopes id s hget
    refine ⟨⟨?_, ?_, rfl, ?_⟩, hfit⟩
    · exact named_transfer halike.bindings fun x hx node href =>
        known_collected fun hthere => .step hreach (.binding hget hx href) hthere
    · have hrel := halike.parent
      cases hparent : s.parent with
      | none => exact .none
      | some parent =>
        rw [hparent] at hrel
        cases hrel with
        | some hpair =>
          exact .some ⟨rfl, known_collected
            (fun hthere => .step hreach (.parent hget hparent) hthere) hpair.2⟩
    · have hrel := halike.returned
      cases hreturned : s.returned with
      | none => exact .none
      | some value =>
        rw [hreturned] at hrel
        cases hrel with
        | some hvalue =>
          exact .some (alike_transfer hvalue fun node href =>
            known_collected fun hthere => .step hreach (.returned hget hreturned href) hthere)
  objects id c hget := by
    have hreach := Heap.reaches_of_resolves_collected (.object id) ⟨c, hget⟩
    have hget : heap.objects.get? id = some c := by
      classical
      rwa [Heap.get?_objects_collect, if_pos hreach] at hget
    exact named_transfer (h.objects id c hget) fun x hx node href =>
      known_collected fun hthere => .step hreach (.property hget hx href) hthere
  arrays id c hget := by
    have hreach := Heap.reaches_of_resolves_collected (.array id) ⟨c, hget⟩
    have hget : heap.arrays.get? id = some c := by
      classical
      rwa [Heap.get?_arrays_collect, if_pos hreach] at hget
    have halike := h.arrays id c hget
    refine ⟨?_, ?_⟩
    · exact values_transfer halike.elements fun u hu node href =>
        known_collected fun hthere => .step hreach (.element hget hu href) hthere
    · exact named_transfer halike.props fun x hx node href =>
        known_collected fun hthere => .step hreach (.sideProperty hget hx href) hthere

/-- The machine after a collection. -/
def collectedMachine (m : Machine) : Machine :=
  { m with
    heap := m.heap.collected m.roots m.held
    nextGc := max m.config.gcThreshold ((m.heap.collected m.roots m.held).live * 2) }

/-- A collection keeps all that is asked of a machine, as its roots are reached. -/
theorem Holds.collected (h : D.Holds m) : D.Holds (collectedMachine m) where
  toStores := h.toStores.collected
  roots id hid := Heap.resolves_collected (.scope hid (h.roots id hid))

/-- A collection keeps everything that is pinned. -/
theorem leads_collected (m : Machine) :
    D.regime.Leads true (D.joint m) (D.joint (collectedMachine m)) where
  roots := ⟨rfl, rfl⟩
  pinned u v huv := by
    refine ⟨alike_transfer huv.alike fun node href hknown => ?_, huv.kept⟩
    rcases huv.kept with hlasting | hheld
    · exact .inl hlasting
    · exact known_collected (fun hthere => .value hheld.1 href hthere) hknown
  pinnedScope a b hab := by
    refine ⟨⟨hab.paired.1, ?_⟩, hab.kept⟩
    rcases hab.kept with hlasting | hroots
    · exact .inl hlasting
    · exact known_collected (fun hthere => .scope hroots.1 hthere) hab.paired.2
  held _ := ⟨rfl, rfl⟩

/-- A collection keeps a diagonal regime sound. -/
theorem steps_collectWhen (due : Machine → Bool) {j : Joint} (hs : D.regime.Sound j) :
    D.regime.Steps true j (Eval.collectWhen due) (Eval.collectWhen due) fun _ _ _ => True := by
  obtain ⟨m, rfl, hholds⟩ := sound_iff.1 hs
  unfold Regime.Steps Eval.collectWhen joint
  dsimp only
  split
  · exact .ok (sound_iff.2 ⟨collectedMachine m, rfl, hholds.collected⟩) (leads_collected m) trivial
  · exact .ok hs .refl trivial

end Collect

/-! ## Reading -/

/-- A known cell is read, or it is stale. -/
theorem reads_get? (hD : D.Lawful) {kind : CellKind} {α : Type} {arena : Arena kind α}
    {id : Handle kind} {post : α → α → Prop}
    (hknown : D.lasting ∨ ∃ cell, arena.get? id = some cell)
    (hpost : ∀ cell, arena.get? id = some cell → post cell cell) :
    D.regime.Reads post ((arena.get? id).elim (.error (.staleHandle kind id)) .ok)
      ((arena.get? id).elim (.error (.staleHandle kind id)) .ok) := by
  cases hget : arena.get? id with
  | some cell => exact .ok (hpost cell hget)
  | none =>
    rcases hknown with hlasting | ⟨cell, hcell⟩
    · exact .error (hD.admitsStale hlasting)
    · rw [hget] at hcell
      cases hcell

/-- A walk outward meets known scopes only.  Induction on the steps that are left. -/
theorem resolves_resolveWithin (hD : D.Lawful) (h : D.Stores heap) (name : String) (steps : Nat)
    {a : ScopeId} (ha : D.Known heap (.scope a)) :
    D.regime.Resolves (D.pairing heap) (heap.resolveWithin name steps a)
      (heap.resolveWithin name steps a) := by
  induction steps generalizing a with
  | zero => exact .endless
  | succ steps ih =>
    unfold Heap.resolveWithin
    cases hget : heap.scopes.get? a with
    | none =>
      -- a scope that is known is there, unless all of them count as known
      rcases ha with hlasting | ⟨s, hs⟩
      · exact .stale (hD.admitsStale hlasting)
      · rw [hget] at hs
        cases hs
    | some s =>
      have halike := (h.scopes a s hget).1
      have hvalue := halike.get? name
      dsimp only
      cases hname : s.get? name with
      | some v =>
        rw [hname] at hvalue
        cases hvalue with
        | some hv => exact .bound ⟨rfl, ha⟩ hv
      | none =>
        have hparent := halike.parent
        dsimp only
        cases hp : s.parent with
        | none => exact .unbound halike
        | some parent =>
          rw [hp] at hparent
          cases hparent with
          | some hpair => exact ih hpair.2

/-! ## Making cells -/

section Make

/-- A new cell leaves paired what was. -/
theorem within_addScope (h : heap.WellFormed) (s : Scope) :
    (D.pairing heap).Within (D.pairing (heap.addScope s).1) :=
  pairing_within fun _ hnode => (Heap.resolves_addScope h s).2 (.inr hnode)

theorem within_addObject (h : heap.WellFormed) (c : ObjectCell) :
    (D.pairing heap).Within (D.pairing (heap.addObject c).1) :=
  pairing_within fun _ hnode => (Heap.resolves_addObject h c).2 (.inr hnode)

theorem within_addArray (h : heap.WellFormed) (c : ArrayCell) :
    (D.pairing heap).Within (D.pairing (heap.addArray c).1) :=
  pairing_within fun _ hnode => (Heap.resolves_addArray h c).2 (.inr hnode)

/-- A new scope that is alike to itself joins those that are. -/
theorem Stores.addScope (hD : D.Lawful) (h : D.Stores heap) {s : Scope}
    (hs : Scope.Alike D.shape (D.pairing heap) s s) (hsignals : s.signalled = false) :
    D.Stores (heap.addScope s).1 := by
  have hwithin := within_addScope (D := D) h.wellFormed s
  refine ⟨h.wellFormed.addScope s, fun id t hget => ?_,
    fun id c hget => (h.objects id c hget).mono hwithin,
    fun id c hget => (h.arrays id c hget).mono hwithin⟩
  rw [Heap.get?_addScope h.wellFormed] at hget
  by_cases hid : id = (heap.addScope s).2
  · rw [if_pos hid] at hget
    cases hget
    exact ⟨hs.mono hwithin, hD.fitNew hsignals⟩
  · rw [if_neg hid] at hget
    exact ⟨(h.scopes id t hget).1.mono hwithin, (h.scopes id t hget).2⟩

/-- So does a new object. -/
theorem Stores.addObject (h : D.Stores heap) {c : ObjectCell}
    (hc : ObjectCell.Alike D.shape (D.pairing heap) c c) : D.Stores (heap.addObject c).1 := by
  have hwithin := within_addObject (D := D) h.wellFormed c
  refine ⟨h.wellFormed.addObject c,
    fun id s hget => ⟨(h.scopes id s hget).1.mono hwithin, (h.scopes id s hget).2⟩,
    fun id d hget => ?_, fun id d hget => (h.arrays id d hget).mono hwithin⟩
  rw [Heap.get?_addObject h.wellFormed] at hget
  by_cases hid : id = (heap.addObject c).2
  · rw [if_pos hid] at hget
    cases hget
    exact hc.mono hwithin
  · rw [if_neg hid] at hget
    exact (h.objects id d hget).mono hwithin

/-- So does a new array. -/
theorem Stores.addArray (h : D.Stores heap) {c : ArrayCell}
    (hc : ArrayCell.Alike D.shape (D.pairing heap) c c) : D.Stores (heap.addArray c).1 := by
  have hwithin := within_addArray (D := D) h.wellFormed c
  refine ⟨h.wellFormed.addArray c,
    fun id s hget => ⟨(h.scopes id s hget).1.mono hwithin, (h.scopes id s hget).2⟩,
    fun id d hget => (h.objects id d hget).mono hwithin, fun id d hget => ?_⟩
  rw [Heap.get?_addArray h.wellFormed] at hget
  by_cases hid : id = (heap.addArray c).2
  · rw [if_pos hid] at hget
    cases hget
    exact hc.mono hwithin
  · rw [if_neg hid] at hget
    exact (h.arrays id d hget).mono hwithin

/-- The machine with another heap, in which all roots are still known. -/
theorem Holds.withHeap (h : D.Holds m) (hheap : D.Stores heap)
    (hkeep : ∀ node, m.heap.Resolves node → heap.Resolves node) : D.Holds { m with heap } where
  toStores := hheap
  roots id hid := hkeep _ (h.roots id hid)

end Make

/-! ## Changing cells -/

section Change

/-- A changed cell fits if the change respects that. -/
theorem of_get?_modify {kind : CellKind} {α : Type} {arena : Arena kind α} {a id : Handle kind}
    {f : α → α} {c : α} (fits : α → Prop) (hfits : ∀ id c, arena.get? id = some c → fits c)
    (hf : ∀ c, fits c → fits (f c)) (hget : (arena.modify a f).get? id = some c) : fits c := by
  rw [Arena.get?_modify] at hget
  by_cases hid : id = a
  · rw [if_pos hid] at hget
    obtain ⟨old, hold, rfl⟩ := Option.map_eq_some_iff.1 hget
    exact hf old (hfits a old hold)
  · rw [if_neg hid] at hget
    exact hfits id c hget

/-- Changing a scope so that it stays alike to itself. -/
theorem Stores.modifyScope (h : D.Stores heap) {a : ScopeId} {f : Scope → Scope}
    (hf : ∀ s, Scope.Alike D.shape (D.pairing heap) s s ∧ D.fit s →
      Scope.Alike D.shape (D.pairing heap) (f s) (f s) ∧ D.fit (f s)) :
    D.Stores (heap.modifyScope a f) := by
  have hpairing : D.pairing (heap.modifyScope a f) = D.pairing heap :=
    pairing_eq fun _ => Heap.resolves_modifyScope
  refine ⟨h.wellFormed.modifyScope a f, ?_, ?_, ?_⟩
  all_goals rw [hpairing]
  · exact fun id s => of_get?_modify (fun s => Scope.Alike D.shape (D.pairing heap) s s ∧ D.fit s)
      h.scopes hf
  · exact h.objects
  · exact h.arrays

/-- Changing an object so that it stays alike to itself. -/
theorem Stores.modifyObject (h : D.Stores heap) {a : ObjectId} {f : ObjectCell → ObjectCell}
    (hf : ∀ c, ObjectCell.Alike D.shape (D.pairing heap) c c →
      ObjectCell.Alike D.shape (D.pairing heap) (f c) (f c)) :
    D.Stores (heap.modifyObject a f) := by
  have hpairing : D.pairing (heap.modifyObject a f) = D.pairing heap :=
    pairing_eq fun _ => Heap.resolves_modifyObject
  refine ⟨h.wellFormed.modifyObject a f, ?_, ?_, ?_⟩
  all_goals rw [hpairing]
  · exact h.scopes
  · exact fun id c => of_get?_modify (fun c => ObjectCell.Alike D.shape (D.pairing heap) c c)
      h.objects hf
  · exact h.arrays

/-- Changing an array so that it stays alike to itself. -/
theorem Stores.modifyArray (h : D.Stores heap) {a : ArrayId} {f : ArrayCell → ArrayCell}
    (hf : ∀ c, ArrayCell.Alike D.shape (D.pairing heap) c c →
      ArrayCell.Alike D.shape (D.pairing heap) (f c) (f c)) :
    D.Stores (heap.modifyArray a f) := by
  have hpairing : D.pairing (heap.modifyArray a f) = D.pairing heap :=
    pairing_eq fun _ => Heap.resolves_modifyArray
  refine ⟨h.wellFormed.modifyArray a f, ?_, ?_, ?_⟩
  all_goals rw [hpairing]
  · exact h.scopes
  · exact h.objects
  · exact fun id c => of_get?_modify (fun c => ArrayCell.Alike D.shape (D.pairing heap) c c)
      h.arrays hf

/-! Two changes that take alike cells to alike ones are the same change. -/

/-- Two changes of the bindings of a scope. -/
theorem Stores.sameBindings (hD : D.Lawful) (h : D.Stores heap) {a : ScopeId}
    {f g : List (String × Value) → List (String × Value)}
    (hfg : ∀ xs ys, Named.Rel (Value.Alike D.shape (D.pairing heap)) xs ys →
      Named.Rel (Value.Alike D.shape (D.pairing heap)) (f xs) (g ys)) :
    D.Stores (heap.modifyScope a fun s => { s with bindings := f s.bindings }) ∧
      heap.modifyScope a (fun s => { s with bindings := g s.bindings }) =
        heap.modifyScope a fun s => { s with bindings := f s.bindings } := by
  have hsame : ∀ s, Scope.Alike D.shape (D.pairing heap) s s → f s.bindings = g s.bindings :=
    fun s hs => eq_of_named (hfg _ _ hs.bindings)
  refine ⟨h.modifyScope fun s hs => ⟨⟨?_, hs.1.parent, rfl, hs.1.returned⟩, hD.fitBindings hs.2⟩, ?_⟩
  · have hfg := hfg _ _ hs.1.bindings
    rwa [← hsame s hs.1] at hfg
  · refine congrArg (fun scopes => { heap with scopes }) (Arena.modify_congr fun s hget => ?_)
    rw [hsame s (h.scopes a s hget).1]

/-- Two changes of an object. -/
theorem Stores.sameObject (h : D.Stores heap) {a : ObjectId} {f g : ObjectCell → ObjectCell}
    (hfg : ∀ c d, ObjectCell.Alike D.shape (D.pairing heap) c d →
      ObjectCell.Alike D.shape (D.pairing heap) (f c) (g d)) :
    D.Stores (heap.modifyObject a f) ∧ heap.modifyObject a g = heap.modifyObject a f := by
  have hsame : ∀ c, ObjectCell.Alike D.shape (D.pairing heap) c c → f c = g c :=
    fun c hc => eq_of_object (hfg c c hc)
  refine ⟨h.modifyObject fun c hc => ?_, ?_⟩
  · have hfg := hfg c c hc
    rwa [← hsame c hc] at hfg
  · refine congrArg (fun objects => { heap with objects }) (Arena.modify_congr fun c hget => ?_)
    rw [hsame c (h.objects a c hget)]

/-- Two changes of an array. -/
theorem Stores.sameArray (h : D.Stores heap) {a : ArrayId} {f g : ArrayCell → ArrayCell}
    (hfg : ∀ c d, ArrayCell.Alike D.shape (D.pairing heap) c d →
      ArrayCell.Alike D.shape (D.pairing heap) (f c) (g d)) :
    D.Stores (heap.modifyArray a f) ∧ heap.modifyArray a g = heap.modifyArray a f := by
  have hsame : ∀ c, ArrayCell.Alike D.shape (D.pairing heap) c c → f c = g c :=
    fun c hc => eq_of_array (hfg c c hc)
  refine ⟨h.modifyArray fun c hc => ?_, ?_⟩
  · have hfg := hfg c c hc
    rwa [← hsame c hc] at hfg
  · refine congrArg (fun arrays => { heap with arrays }) (Arena.modify_congr fun c hget => ?_)
    rw [hsame c (h.arrays a c hget)]

/-- Two changes of the signals of a scope, wherever all scopes are fit. -/
theorem Stores.sameSignals (hfit : ∀ s, D.fit s) (h : D.Stores heap) {a : ScopeId}
    {f g : Scope → Bool × Option Value}
    (hfg : ∀ s t, Scope.Alike D.shape (D.pairing heap) s t →
      (f s).1 = (g t).1 ∧ Option.Rel (Value.Alike D.shape (D.pairing heap)) (f s).2 (g t).2) :
    D.Stores (heap.modifyScope a fun s => { s with broke := (f s).1, returned := (f s).2 }) ∧
      heap.modifyScope a (fun s => { s with broke := (g s).1, returned := (g s).2 }) =
        heap.modifyScope a fun s => { s with broke := (f s).1, returned := (f s).2 } := by
  have hsame : ∀ s, Scope.Alike D.shape (D.pairing heap) s s → f s = g s := fun s hs => by
    obtain ⟨hbroke, hreturned⟩ := hfg s s hs
    exact Prod.ext hbroke (eq_of_option hreturned)
  refine ⟨h.modifyScope fun s hs =>
    ⟨⟨hs.1.bindings, hs.1.parent, rfl, ?_⟩, hfit _⟩, ?_⟩
  · have hreturned := (hfg s s hs.1).2
    rwa [← hsame s hs.1] at hreturned
  · refine congrArg (fun scopes => { heap with scopes }) (Arena.modify_congr fun s hget => ?_)
    rw [hsame s (h.scopes a s hget).1]

end Change

/-! ## The laws -/

/-- Writing the same text to the same sink. -/
theorem steps_write (hD : D.Lawful) (h : D.Holds m) (text : String) :
    D.regime.Steps true (D.joint m) (Eval.write text) (Eval.write text) fun _ _ _ => True := by
  have hs : D.regime.Sound (D.joint m) := sound_iff.2 ⟨m, rfl, h⟩
  unfold Regime.Steps joint
  rw [Eval.write_apply]
  split
  · exact .ok hs .refl trivial
  · split
    · have hsound : D.regime.Sound
          (D.joint { m with sink := { m.sink with written := m.sink.written ++ text } }) :=
        ⟨rfl, rfl, h.ofHeap rfl h.roots⟩
      exact .ok hsound ⟨⟨rfl, rfl⟩, fun _ _ h => ⟨h.alike, h.kept⟩,
        fun _ _ h => ⟨h.paired, h.kept⟩, fun _ => ⟨rfl, rfl⟩⟩ trivial
    · exact .error (hD.admits (e := .sinkFull) nofun) rfl

/-- The check looks at the same depth twice. -/
theorem steps_checkDepth (hD : D.Lawful) (h : D.Holds m) :
    D.regime.Steps true (D.joint m) Evaluator.checkDepth Evaluator.checkDepth
      fun now _ _ => now = D.joint m := by
  have hs : D.regime.Sound (D.joint m) := sound_iff.2 ⟨m, rfl, h⟩
  unfold Regime.Steps Evaluator.checkDepth joint
  dsimp only
  split
  · exact .error (hD.admits (e := .callsTooDeep _) nofun) rfl
  · exact .ok hs .refl rfl

/-- Two changes that are the same, after which the same handles resolve as before. -/
theorem sound_withHeaps (h : D.Holds m)
    (hresolves : ∀ node, heap.Resolves node ↔ m.heap.Resolves node) (hstores : D.Stores heap)
    (hsame : heap' = heap) :
    D.regime.Sound ((D.joint m).withHeaps (D.joint m).pairing heap heap') := by
  subst hsame
  refine ⟨rfl, ?_, h.withHeap hstores fun node => (hresolves node).2⟩
  exact (pairing_eq hresolves).symm

/-- **A diagonal regime is lawful.** -/
theorem Lawful.regime (hD : D.Lawful) : D.regime.Lawful where
  admits := hD.admits
  fault hs := hs.1
  active hs := by
    obtain ⟨m, rfl, h⟩ := sound_iff.1 hs
    exact ⟨rfl, .inr (h.roots m.scope (List.mem_cons_of_mem _ List.mem_cons_self))⟩
  root hs := by
    obtain ⟨m, rfl, h⟩ := sound_iff.1 hs
    exact ⟨rfl, .inr (h.roots m.root List.mem_cons_self)⟩
  entryPoint hs := by rw [hs.1]
  objectUnique hs hab hcd := by
    obtain ⟨m, rfl, h⟩ := sound_iff.1 hs
    rw [hab.1, hcd.1]
  arrayUnique hs hab hcd := by
    obtain ⟨m, rfl, h⟩ := sound_iff.1 hs
    rw [hab.1, hcd.1]
  -- what is read under a known handle is alike to itself
  scope hs hab := by
    obtain ⟨m, rfl, h⟩ := sound_iff.1 hs
    obtain ⟨rfl, hknown⟩ := hab
    show D.regime.Reads _ (m.heap.scope _) (m.heap.scope _)
    rw [Heap.scope_eq_elim]
    exact reads_get? hD hknown fun s hget => (h.scopes _ s hget).1
  object hs hab := by
    obtain ⟨m, rfl, h⟩ := sound_iff.1 hs
    obtain ⟨rfl, hknown⟩ := hab
    show D.regime.Reads _ (m.heap.object _) (m.heap.object _)
    rw [Heap.object_eq_elim]
    exact reads_get? hD hknown fun c hget => h.objects _ c hget
  array hs hab := by
    obtain ⟨m, rfl, h⟩ := sound_iff.1 hs
    obtain ⟨rfl, hknown⟩ := hab
    show D.regime.Reads _ (m.heap.array _) (m.heap.array _)
    rw [Heap.array_eq_elim]
    exact reads_get? hD hknown fun c hget => h.arrays _ c hget
  resolve hs hab name := by
    obtain ⟨m, rfl, h⟩ := sound_iff.1 hs
    obtain ⟨rfl, hknown⟩ := hab
    exact resolves_resolveWithin hD h.toStores name _ hknown
  -- making a cell makes one more handle known, and none less
  addScope {j s t} hs hst hsignals := by
    obtain ⟨m, rfl, h⟩ := sound_iff.1 hs
    have hst : Scope.Alike D.shape (D.pairing m.heap) s t := hst
    obtain rfl := eq_of_scope hst
    refine ⟨D.pairing (m.heap.addScope s).1, within_addScope h.wellFormed s,
      ⟨rfl, .inr ((Heap.resolves_addScope h.wellFormed s).2 (.inl rfl))⟩,
      sound_iff.2 ⟨_, rfl, h.withHeap (h.toStores.addScope hD hst hsignals) fun _ hnode => ?_⟩⟩
    exact (Heap.resolves_addScope h.wellFormed s).2 (.inr hnode)
  addObject {j c d} hs hcd := by
    obtain ⟨m, rfl, h⟩ := sound_iff.1 hs
    have hcd : ObjectCell.Alike D.shape (D.pairing m.heap) c d := hcd
    obtain rfl := eq_of_object hcd
    refine ⟨D.pairing (m.heap.addObject c).1, within_addObject h.wellFormed c,
      ⟨rfl, .inr ((Heap.resolves_addObject h.wellFormed c).2 (.inl rfl))⟩,
      sound_iff.2 ⟨_, rfl, h.withHeap (h.toStores.addObject hcd) fun _ hnode => ?_⟩⟩
    exact (Heap.resolves_addObject h.wellFormed c).2 (.inr hnode)
  addArray {j c d} hs hcd := by
    obtain ⟨m, rfl, h⟩ := sound_iff.1 hs
    have hcd : ArrayCell.Alike D.shape (D.pairing m.heap) c d := hcd
    obtain rfl := eq_of_array hcd
    refine ⟨D.pairing (m.heap.addArray c).1, within_addArray h.wellFormed c,
      ⟨rfl, .inr ((Heap.resolves_addArray h.wellFormed c).2 (.inl rfl))⟩,
      sound_iff.2 ⟨_, rfl, h.withHeap (h.toStores.addArray hcd) fun _ hnode => ?_⟩⟩
    exact (Heap.resolves_addArray h.wellFormed c).2 (.inr hnode)
  -- both changes come to one heap, in which the same handles resolve as before
  modifyBindings {j a b f g} hs hab hfg := by
    obtain ⟨m, rfl, h⟩ := sound_iff.1 hs
    obtain ⟨rfl, hknown⟩ := hab
    obtain ⟨hstores, hsame⟩ := h.toStores.sameBindings hD hfg
    exact sound_withHeaps h (fun _ => Heap.resolves_modifyScope) hstores hsame
  modifyObject {j a b f g} hs hab hfg := by
    obtain ⟨m, rfl, h⟩ := sound_iff.1 hs
    obtain ⟨rfl, hknown⟩ := hab
    obtain ⟨hstores, hsame⟩ := h.toStores.sameObject hfg
    exact sound_withHeaps h (fun _ => Heap.resolves_modifyObject) hstores hsame
  modifyArray {j a b f g} hs hab hfg := by
    obtain ⟨m, rfl, h⟩ := sound_iff.1 hs
    obtain ⟨rfl, hknown⟩ := hab
    obtain ⟨hstores, hsame⟩ := h.toStores.sameArray hfg
    exact sound_withHeaps h (fun _ => Heap.resolves_modifyArray) hstores hsame
  -- what is left to do leaves the heap as it is
  keep hbase huv hnow := by
    obtain ⟨b, rfl, -⟩ := sound_iff.1 hbase
    obtain ⟨n, rfl, hn⟩ := sound_iff.1 hnow
    obtain rfl := eq_of_alike huv
    exact ⟨rfl, rfl, hn.ofHeap rfl hn.roots⟩
  letGo hbase hnow := by
    obtain ⟨b, rfl, -⟩ := sound_iff.1 hbase
    obtain ⟨n, rfl, hn⟩ := sound_iff.1 hnow
    exact ⟨rfl, rfl, hn.ofHeap rfl hn.roots⟩
  faultLetGo hbase hfault := by
    obtain ⟨b, rfl, -⟩ := sound_iff.1 hbase
    rw [hfault]
    rfl
  checkDepth hs := by
    obtain ⟨m, rfl, h⟩ := sound_iff.1 hs
    exact steps_checkDepth hD h
  deepen hs := by
    obtain ⟨m, rfl, h⟩ := sound_iff.1 hs
    exact ⟨rfl, rfl, h.ofHeap rfl h.roots⟩
  surface hbase hnow := by
    obtain ⟨b, rfl, -⟩ := sound_iff.1 hbase
    obtain ⟨n, rfl, hn⟩ := sound_iff.1 hnow
    exact ⟨rfl, rfl, hn.ofHeap rfl hn.roots⟩
  faultSurface hbase hfault := by
    obtain ⟨b, rfl, -⟩ := sound_iff.1 hbase
    rw [hfault]
    rfl
  stamps hs := by rw [hs.1]
  stamped hs := by
    obtain ⟨m, rfl, h⟩ := sound_iff.1 hs
    exact ⟨rfl, rfl, h.ofHeap rfl h.roots⟩
  write {j text} hs := by
    obtain ⟨m, rfl, h⟩ := sound_iff.1 hs
    exact steps_write hD h text
  failsFlush hfault := by rw [hfault]

/-- Where all scopes are fit and handles resolve, scopes may be entered, and signals raised. -/
theorem Lawful.signalling (hD : D.Lawful) (hlasting : ¬ D.lasting) (hfit : ∀ s, D.fit s) :
    D.regime.Signalling where
  toLawful := hD.regime
  enter {j a b} hs hab := by
    obtain ⟨m, rfl, h⟩ := sound_iff.1 hs
    obtain ⟨rfl, hknown⟩ := hab
    refine ⟨rfl, rfl, h.ofHeap rfl fun id hid => ?_⟩
    rcases List.mem_cons.1 hid with rfl | hid
    · exact h.roots m.root List.mem_cons_self
    rcases List.mem_cons.1 hid with rfl | hid
    · exact hknown.resolve_left hlasting
    · exact h.roots id (List.mem_cons_of_mem _ hid)
  leave {base now} hbase hnow hback := by
    obtain ⟨b, rfl, hb⟩ := sound_iff.1 hbase
    obtain ⟨n, rfl, hn⟩ := sound_iff.1 hnow
    refine ⟨rfl, rfl, hn.ofHeap rfl fun id hid => ?_⟩
    rcases List.mem_cons.1 hid with rfl | hid
    · exact hn.roots n.root List.mem_cons_self
    · have hroot : id ∈ b.roots := List.mem_cons_of_mem _ hid
      have hpaired := hback id id ⟨⟨rfl, .inr (hb.roots id hroot)⟩, .inr ⟨hroot, hroot⟩⟩
      exact hpaired.2.resolve_left hlasting
  faultLeave hbase hfault := by
    obtain ⟨b, rfl, -⟩ := sound_iff.1 hbase
    rw [hfault]
    rfl
  modifySignals {j a b f g} hs hab hfg := by
    obtain ⟨m, rfl, h⟩ := sound_iff.1 hs
    obtain ⟨rfl, hknown⟩ := hab
    obtain ⟨hstores, hsame⟩ := h.toStores.sameSignals hfit hfg
    exact sound_withHeaps h (fun _ => Heap.resolves_modifyScope) hstores hsame

/-! ## The beginning of a run -/

/-- The empty heap has no cells to ask anything of. -/
theorem stores_empty : D.Stores .empty where
  wellFormed := Heap.wellFormed_empty
  scopes _ _ hget := nomatch hget
  objects _ _ hget := nomatch hget
  arrays _ _ hget := nomatch hget

/-- The properties of a new global object are alike to themselves: they refer to nothing. -/
theorem stores_addGlobal (h : D.Stores heap) : D.Stores heap.addGlobal.1 :=
  h.addObject (Named.Rel.set (.set (.set (.set (.set .nil .print "print") .println "println")
    .len "len") (.maker .object) "Object") (.maker .array) "Array")

/-- A new machine has two cells: the global object, and the outermost scope, which binds it. -/
theorem holds_start (hD : D.Lawful) (config : Config) (sink : Sink) :
    D.Holds (.start config sink) := by
  have hempty : D.Stores .empty := stores_empty
  have hglobal : D.Stores Heap.empty.addGlobal.1 := stores_addGlobal hempty
  have hthere : Heap.empty.addGlobal.1.Resolves (.object Heap.empty.addGlobal.2) :=
    (Heap.resolves_addObject hempty.wellFormed _).2 (.inl rfl)
  have hscope : Scope.Alike D.shape (D.pairing Heap.empty.addGlobal.1)
      (.outermost Heap.empty.addGlobal.2) (.outermost Heap.empty.addGlobal.2) :=
    ⟨.cons ⟨rfl, .object ⟨rfl, .inr hthere⟩⟩ .nil, .none, rfl, .none⟩
  refine ⟨hglobal.addScope hD hscope rfl, fun id hid => ?_⟩
  have hroot : id = (Machine.start config sink).root := by
    rcases List.mem_cons.1 hid with rfl | hid
    · rfl
    · exact List.mem_singleton.1 hid
  subst hroot
  exact (Heap.resolves_addScope hglobal.wellFormed _).2 (.inl rfl)

end Diagonal

end Tao
