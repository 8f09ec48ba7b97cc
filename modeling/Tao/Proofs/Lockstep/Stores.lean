/-
  Names and places in lockstep.

  Every checked change of the heap is a `Store.change`.  With that, each of the changes that scripts
  can make follows from the law about the one cell that it changes.
-/
import Tao.Proofs.Heap.Checked
import Tao.Proofs.Lockstep.Laws

namespace Tao

/-- A checked change on a machine, written out. -/
theorem Eval.store_change {α β : Type} (f : Heap → Except RuntimeError α) (g : α → Heap → Heap)
    (h : α → β) (m : Machine) : Eval.store (Store.change f g h) m = match f m.heap with
      | .ok a => .ok (h a) { m with heap := g a m.heap }
      | .error e => .error (.failed e) m := by
  unfold Eval.store
  rw [Store.change_apply]
  cases f m.heap <;> rfl

namespace Regime

variable {R : Regime} {α α' β β' : Type} {exact : Bool} {j : Joint} {u v : Value}

/-- Two checked changes are in lockstep if their checks read alike and the changes leave a sound
    joint.  All that follows is this rule, with the law about the cell that is changed. -/
theorem Steps.change (hR : R.Lawful) (hs : R.Sound j) {f : Heap → Except RuntimeError α}
    {f' : Heap → Except RuntimeError α'} {g : α → Heap → Heap} {g' : α' → Heap → Heap}
    {h : α → β} {h' : α' → β'} {mid : α → α' → Prop}
    (hread : R.Reads mid (f j.left.heap) (f' j.right.heap))
    (hchange : ∀ a b, mid a b →
      R.Sound (j.withHeaps j.pairing (g a j.left.heap) (g' b j.right.heap))) :
    R.Steps exact j (Eval.store (.change f g h)) (Eval.store (.change f' g' h'))
      fun now x y => now.pairing = j.pairing ∧ ∃ a b, mid a b ∧ x = h a ∧ y = h' b := by
  unfold Steps
  rw [Eval.store_change, Eval.store_change]
  generalize f j.left.heap = r at hread
  generalize f' j.right.heap = s at hread
  cases hread with
  | ok holds =>
    exact .ok (hchange _ _ holds) (.ofHeaps (.refl _) _ _) ⟨rfl, _, _, holds, rfl, rfl⟩
  | error admitted => exact .error admitted (hR.fault hs)
  | left excused => exact .left excused
  | right excused => exact .right excused

/-! ## Properties and elements -/

/-- Putting a property of paired objects. -/
theorem Steps.putProp (hR : R.Lawful) (hs : R.Sound j) {a b : ObjectId}
    (hab : j.pairing.object a b) (key : String) (huv : R.Alike j u v) :
    R.Steps exact j (Eval.store (Store.putProp a key u)) (Eval.store (Store.putProp b key v))
      fun _ _ _ => True := by
  unfold Store.putProp
  rw [Store.change_unit, Store.change_unit]
  exact (Steps.change hR hs (hR.object hs hab) fun _ _ _ =>
    hR.modifyObject hs hab fun _ _ hcd => Named.Rel.set hcd huv key).weaken fun _ _ _ _ => trivial

/-- An index has the same place in paired arrays, or fails alike. -/
theorem Reads.place (hR : R.Lawful) (hs : R.Sound j) {a b : ArrayId}
    (hab : j.pairing.array a b) (index : Int64) :
    R.Reads Eq (do (← j.left.heap.array a).place index)
      (do (← j.right.heap.array b).place index) := by
  refine (hR.array hs hab).bind fun c d hcd => ?_
  rw [hcd.place_eq index]
  refine .same hR fun e he => ?_
  unfold ArrayCell.place at he
  split at he
  · cases he
    nofun
  · cases he

/-- Replacing an element of paired arrays. -/
theorem Steps.setElement (hR : R.Lawful) (hs : R.Sound j) {a b : ArrayId}
    (hab : j.pairing.array a b) (index : Int64) (huv : R.Alike j u v) :
    R.Steps exact j (Eval.store (Store.setElement a index u))
      (Eval.store (Store.setElement b index v)) fun _ _ _ => True := by
  unfold Store.setElement
  rw [Store.change_unit, Store.change_unit]
  refine (Steps.change hR hs (Reads.place hR hs hab index) fun place place' h => ?_).weaken
    fun _ _ _ _ => trivial
  subst h
  exact hR.modifyArray hs hab fun _ _ hcd => hcd.setElement huv place

/-- Putting a property beside the elements of paired arrays. -/
theorem Steps.putArrayProp (hR : R.Lawful) (hs : R.Sound j) {a b : ArrayId}
    (hab : j.pairing.array a b) (key : String) (huv : R.Alike j u v) :
    R.Steps exact j (Eval.store (Store.putArrayProp a key u))
      (Eval.store (Store.putArrayProp b key v)) fun _ _ _ => True := by
  unfold Store.putArrayProp
  rw [Store.change_unit, Store.change_unit]
  exact (Steps.change hR hs (hR.array hs hab) fun _ _ _ =>
    hR.modifyArray hs hab fun _ _ hcd => hcd.setProp huv key).weaken fun _ _ _ _ => trivial

/-- Appending to paired arrays, whose new lengths are the same. -/
theorem Steps.pushElements (hR : R.Lawful) (hs : R.Sound j) {a b : ArrayId}
    (hab : j.pairing.array a b) {us vs : List Value} (huvs : List.Forall₂ (R.Alike j) us vs) :
    R.Steps exact j (Eval.store (Store.pushElements a us)) (Eval.store (Store.pushElements b vs))
      fun _ m n => m = n := by
  have hsize := (hR.array hs hab).map (f := fun c => c.elements.size)
    (g := fun d => d.elements.size) fun _ _ hcd => hcd.size_eq
  refine (Steps.change hR hs hsize fun _ _ _ =>
    hR.modifyArray hs hab fun _ _ hcd => hcd.appendList huvs).weaken ?_
  rintro _ _ _ ⟨-, _, _, rfl, rfl, rfl⟩
  rw [huvs.length_eq]

/-- Taking the last elements off paired arrays. -/
theorem Steps.popElement (hR : R.Lawful) (hs : R.Sound j) {a b : ArrayId}
    (hab : j.pairing.array a b) :
    R.Steps exact j (Eval.store (Store.popElement a)) (Eval.store (Store.popElement b))
      fun now x y => Option.Rel (R.Alike now) x y := by
  have hlast := (hR.array hs hab).map (f := fun c => c.elements.back?)
    (g := fun d => d.elements.back?) fun _ _ hcd => hcd.back?
  refine (Steps.change hR hs hlast fun _ _ _ =>
    hR.modifyArray hs hab fun _ _ hcd => hcd.pop).weaken ?_
  rintro now _ _ ⟨hpairing, x, y, hxy, rfl, rfl⟩
  unfold Regime.Alike
  rw [hpairing]
  exact hxy

/-! ## Signals -/

section Signals

variable {a b : ScopeId}

/-- Returning in paired scopes. -/
theorem Steps.setReturned (hR : R.Signalling) (hs : R.Sound j) (hab : j.pairing.scope a b)
    (huv : R.Alike j u v) :
    R.Steps exact j (Eval.store (Store.setReturned a u)) (Eval.store (Store.setReturned b v))
      fun _ _ _ => True := by
  unfold Store.setReturned
  rw [Store.change_unit, Store.change_unit]
  exact (Steps.change hR.toLawful hs (hR.scope hs hab) fun _ _ _ =>
    hR.modifySignals (f := fun s => (s.broke, some u)) (g := fun t => (t.broke, some v)) hs hab
      fun _ _ hst => ⟨hst.broke, .some huv⟩).weaken fun _ _ _ _ => trivial

/-- Breaking in paired scopes. -/
theorem Steps.setBroke (hR : R.Signalling) (hs : R.Sound j) (hab : j.pairing.scope a b) :
    R.Steps exact j (Eval.store (Store.setBroke a)) (Eval.store (Store.setBroke b))
      fun _ _ _ => True := by
  unfold Store.setBroke
  rw [Store.change_unit, Store.change_unit]
  exact (Steps.change hR.toLawful hs (hR.scope hs hab) fun _ _ _ =>
    hR.modifySignals (f := fun s => (true, s.returned)) (g := fun t => (true, t.returned)) hs hab
      fun _ _ hst => ⟨rfl, hst.returned⟩).weaken fun _ _ _ _ => trivial

/-- Taking down the signals of paired scopes, which are alike. -/
theorem Steps.lowerSignals (hR : R.Signalling) (hs : R.Sound j) (hab : j.pairing.scope a b) :
    R.Steps exact j (Eval.store (Store.lowerSignals a)) (Eval.store (Store.lowerSignals b))
      fun now x y => now.pairing = j.pairing ∧ x.1 = y.1 ∧ Option.Rel (R.Alike now) x.2 y.2 := by
  have hsignals := (hR.scope hs hab).map (f := fun s => (s.broke, s.returned))
    (g := fun t => (t.broke, t.returned))
    (P := fun x y => x.1 = y.1 ∧ Option.Rel (Value.Alike R.shape j.pairing) x.2 y.2)
    fun _ _ hst => ⟨hst.broke, hst.returned⟩
  refine (Steps.change hR.toLawful hs hsignals fun _ _ _ =>
    hR.modifySignals (f := fun _ => (false, none)) (g := fun _ => (false, none)) hs hab
      fun _ _ _ => ⟨rfl, .none⟩).weaken ?_
  rintro now _ _ ⟨hpairing, x, y, ⟨hbroke, hreturned⟩, rfl, rfl⟩
  refine ⟨hpairing, hbroke, ?_⟩
  unfold Regime.Alike
  rw [hpairing]
  exact hreturned

end Signals

/-! ## Names -/

section Names

variable {a b : ScopeId}

/-- Falling back on the global objects of scopes that are alike. -/
theorem Reads.globalProp (hR : R.Lawful) (hs : R.Sound j) {s t : Scope}
    (hst : Scope.Alike R.shape j.pairing s t) (name : String) :
    R.Reads (Option.Rel (R.Alike j)) (j.left.heap.globalProp s name)
      (j.right.heap.globalProp t name) := by
  have hglobal := hst.get? Scope.globalName
  unfold Heap.globalProp
  generalize s.get? Scope.globalName = x at hglobal
  generalize t.get? Scope.globalName = y at hglobal
  cases hglobal with
  | none => exact .ok .none
  | some huv =>
    cases huv with
    | object hab => exact (hR.object hs hab).map fun _ _ hcd => hcd.get? name
    | _ => exact .error (hR.admits nofun)

/-- Looking a name up from paired scopes. -/
theorem Reads.lookup (hR : R.Lawful) (hs : R.Sound j) (hab : j.pairing.scope a b)
    (name : String) : R.Reads (Option.Rel (R.Alike j)) (j.left.heap.lookup a name)
      (j.right.heap.lookup b name) := by
  have hresolve := hR.resolve hs hab name
  unfold Heap.lookup
  generalize j.left.heap.resolve a name = x at hresolve
  generalize j.right.heap.resolve b name = y at hresolve
  cases hresolve with
  | bound _ huv => exact .ok (.some huv)
  | unbound hst => exact .globalProp hR hs hst name
  | stale admitted => exact .error admitted
  | endless => exact .ok .none
  | left excused => exact .left excused
  | right excused => exact .right excused

/-- The value of a name, seen from paired scopes. -/
theorem Reads.valueOf (hR : R.Lawful) (hs : R.Sound j) (hab : j.pairing.scope a b)
    (name : String) :
    R.Reads (R.Alike j) (j.left.heap.valueOf a name) (j.right.heap.valueOf b name) := by
  refine (Reads.lookup hR hs hab name).bind fun x y hxy => ?_
  cases hxy with
  | some huv => exact .ok huv
  | none => exact .error (hR.admits nofun)

/-- A name is free in both of two scopes that are alike, or bound in both. -/
theorem Reads.define (hR : R.Lawful) {s t : Scope} (hst : Scope.Alike R.shape j.pairing s t)
    (name : String) (huv : R.Alike j u v) :
    R.Reads (Scope.Alike R.shape j.pairing) (s.define name u) (t.define name v) := by
  have hget := hst.get? name
  unfold Scope.define
  generalize s.get? name = x at hget
  generalize t.get? name = y at hget
  cases hget with
  | some _ => exact .error (hR.admits nofun)
  | none => exact .ok ⟨hst.bindings.append_one huv name, hst.parent, hst.broke, hst.returned⟩

/-- Defining a name in paired scopes. -/
theorem Steps.define (hR : R.Lawful) (hs : R.Sound j) (hab : j.pairing.scope a b)
    (name : String) (huv : R.Alike j u v) :
    R.Steps exact j (Eval.store (Store.define a name u)) (Eval.store (Store.define b name v))
      fun now _ _ => now.pairing = j.pairing := by
  unfold Store.define
  rw [Store.change_unit, Store.change_unit]
  refine (Steps.change hR hs ((hR.scope hs hab).bind fun _ _ hst => .define hR hst name huv)
    fun _ _ _ => hR.modifyBindings (f := fun xs => xs ++ [(name, u)])
      (g := fun ys => ys ++ [(name, v)]) hs hab fun _ _ h => h.append_one huv name).weaken ?_
  exact fun _ _ _ h => h.1

/-- The scopes that an assignment from paired scopes goes to are paired. -/
theorem Reads.assignmentOwner (hR : R.Lawful) (hs : R.Sound j) (hab : j.pairing.scope a b)
    (name : String) : R.Reads j.pairing.scope (Store.assignmentOwner a name j.left.heap)
      (Store.assignmentOwner b name j.right.heap) := by
  have hresolve := hR.resolve hs hab name
  unfold Store.assignmentOwner
  generalize j.left.heap.resolve a name = x at hresolve
  generalize j.right.heap.resolve b name = y at hresolve
  cases hresolve with
  | bound hcd _ => exact .ok hcd
  | unbound _ | endless => exact .error (hR.admits nofun)
  | stale admitted => exact .error admitted
  | left excused => exact .left excused
  | right excused => exact .right excused

/-- Assigning to a name from paired scopes. -/
theorem Steps.assign (hR : R.Lawful) (hs : R.Sound j) (hab : j.pairing.scope a b)
    (name : String) (huv : R.Alike j u v) :
    R.Steps exact j (Eval.store (Store.assign a name u)) (Eval.store (Store.assign b name v))
      fun _ _ _ => True := by
  unfold Store.assign
  rw [Store.change_unit, Store.change_unit]
  exact (Steps.change hR hs (Reads.assignmentOwner hR hs hab name) fun _ _ howner =>
    hR.modifyBindings (f := Scope.rebind name u) (g := Scope.rebind name v) hs howner
      fun _ _ h => h.rebind huv name).weaken fun _ _ _ _ => trivial

end Names

end Regime

end Tao
