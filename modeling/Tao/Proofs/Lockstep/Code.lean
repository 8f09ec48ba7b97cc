/-
  One machine on both sides, whose code has a shape.

  This is the least that can be asked of a machine in a diagonal regime: all functions that its heap
  refers to have a given shape everywhere.  Handles may be stale, and so may the scopes to come back
  to.  It is asked after a failure, too, so it goes for one run after another.
-/
import Tao.Proofs.Lockstep.Diagonal

namespace Tao

/-- Code of a given shape; handles may be stale. -/
def Diagonal.coded (shape : Shape) : Diagonal where
  shape := shape
  lasting := True
  fit _ := True
  admits _ := True
  excuses _ := False

/-- Nothing is asked that one run of a program could violate. -/
theorem Diagonal.lawful_coded (shape : Shape) : (Diagonal.coded shape).Lawful where
  admits _ := trivial
  admitsStale _ := trivial
  fitNew _ := trivial
  fitBindings _ := trivial

/-- All functions that a heap refers to have the shape everywhere. -/
abbrev Heap.HasCode (shape : Shape) (heap : Heap) : Prop := (Diagonal.coded shape).Stores heap

/-- The regime of one machine whose code has a shape, before and after failures. -/
def Regime.coded (shape : Shape) : Regime :=
  { (Diagonal.coded shape).regime with
    Sound := fun j => j.left = j.right ∧ j.pairing = (Diagonal.coded shape).pairing j.left.heap ∧
      j.left.heap.HasCode shape
    AtFault := fun m m' => m = m' ∧ m.heap.HasCode shape }

namespace Coded

open Diagonal (coded)

variable {shape : Shape} {heap heap' : Heap} {m m' : Machine} {exact : Bool}

/-- As handles may be stale, what is paired is just what is the same. -/
theorem pairing_eq : (coded shape).pairing heap = (coded shape).pairing heap' := by
  have hknown : ∀ heap node, (coded shape).Known heap node := fun _ _ => .inl trivial
  unfold Diagonal.pairing
  simp only [hknown]

/-! ## Sound joints -/

/-- A sound joint has the same machine on both sides, and its code has the shape. -/
theorem sound_iff {j : Joint} :
    (Regime.coded shape).Sound j ↔ ∃ m, j = (coded shape).joint m ∧ m.heap.HasCode shape := by
  constructor
  · obtain ⟨p, m, m'⟩ := j
    intro hs
    obtain ⟨rfl, rfl, hcode⟩ :
        m = m' ∧ p = (coded shape).pairing m.heap ∧ m.heap.HasCode shape := hs
    exact ⟨m, rfl, hcode⟩
  · rintro ⟨m, rfl, hcode⟩
    exact ⟨rfl, rfl, hcode⟩

/-- Every machine whose code has the shape makes such a joint. -/
theorem sound_of_hasCode (h : m.heap.HasCode shape) :
    (Regime.coded shape).Sound ((coded shape).joint m) :=
  sound_iff.2 ⟨m, rfl, h⟩

/-- Whatever is pinned stays so on machines that have the same roots and hold the same values. -/
theorem leads (hroots : m'.roots = m.roots) (hheld : m'.held = m.held) :
    (Regime.coded shape).Leads exact ((coded shape).joint m) ((coded shape).joint m') where
  roots := ⟨hroots, hroots⟩
  pinned u v huv := by
    refine ⟨?_, .inl trivial⟩
    have halike : Value.Alike shape ((coded shape).pairing m.heap) u v := huv.alike
    rwa [pairing_eq] at halike
  pinnedScope a b hab := ⟨⟨hab.paired.1, .inl trivial⟩, .inl trivial⟩
  held _ := ⟨hheld, hheld⟩

/-- Two changes of the heap that are the same. -/
theorem sound_withHeaps (h : heap.HasCode shape) (hsame : heap' = heap) :
    (Regime.coded shape).Sound
      (((coded shape).joint m).withHeaps ((coded shape).joint m).pairing heap heap') := by
  subst hsame
  exact ⟨rfl, pairing_eq, h⟩

/-! ## Reading -/

/-- A cell is read, or it is gone. -/
theorem reads_get? {kind : CellKind} {α : Type} {arena : Arena kind α} {id : Handle kind}
    {post : α → α → Prop} (hpost : ∀ cell, arena.get? id = some cell → post cell cell) :
    (Regime.coded shape).Reads post
      ((arena.get? id).elim (.error (.staleHandle kind id)) .ok)
      ((arena.get? id).elim (.error (.staleHandle kind id)) .ok) := by
  cases hget : arena.get? id with
  | some cell => exact .ok (hpost cell hget)
  | none => exact .error trivial

/-- A walk outward ends as it does in the diagonal regime: whichever scope it may have missed. -/
theorem resolves {p : Pairing} {r r' : Resolution} (h : (coded shape).regime.Resolves p r r') :
    (Regime.coded shape).Resolves p r r' := by
  cases h with
  | bound paired alike => exact .bound paired alike
  | unbound alike => exact .unbound alike
  | stale => exact .stale trivial
  | endless => exact .endless
  | left excused => exact excused.elim
  | right excused => exact excused.elim

/-! ## The laws -/

/-- Collections add no code. -/
theorem steps_collectWhen (due : Machine → Bool) (h : m.heap.HasCode shape) :
    (Regime.coded shape).Steps true ((coded shape).joint m) (Eval.collectWhen due)
      (Eval.collectWhen due) fun _ _ _ => True := by
  have hs := sound_of_hasCode h
  unfold Regime.Steps Eval.collectWhen Diagonal.joint
  dsimp only
  split
  · have hcollected : (Diagonal.collectedMachine m).heap.HasCode shape := h.collected
    exact .ok (sound_of_hasCode hcollected) (leads rfl rfl) trivial
  · exact .ok hs .refl trivial

/-- Nor does printing, also if it is refused. -/
theorem steps_write (h : m.heap.HasCode shape) (text : String) :
    (Regime.coded shape).Steps true ((coded shape).joint m) (Eval.write text) (Eval.write text)
      fun _ _ _ => True := by
  have hs := sound_of_hasCode h
  unfold Regime.Steps Diagonal.joint
  rw [Eval.write_apply]
  split
  · exact .ok hs .refl trivial
  · split
    · let after : Machine := { m with sink := { m.sink with written := m.sink.written ++ text } }
      have hafter : after.heap.HasCode shape := h
      exact .ok (sound_of_hasCode hafter) (leads rfl rfl) trivial
    · exact .error trivial ⟨rfl, h⟩

/-- Nor does the check of the depth. -/
theorem steps_checkDepth (h : m.heap.HasCode shape) :
    (Regime.coded shape).Steps true ((coded shape).joint m) Evaluator.checkDepth
      Evaluator.checkDepth fun now _ _ => now = (coded shape).joint m := by
  have hs := sound_of_hasCode h
  unfold Regime.Steps Evaluator.checkDepth Diagonal.joint
  dsimp only
  split
  · exact .error trivial ⟨rfl, h⟩
  · exact .ok hs .refl rfl

/-- **The regime is lawful.** -/
theorem lawful (shape : Shape) : (Regime.coded shape).Lawful where
  admits _ := trivial
  fault hs := ⟨hs.1, hs.2.2⟩
  active hs := by
    obtain ⟨m, rfl, -⟩ := sound_iff.1 hs
    exact ⟨rfl, .inl trivial⟩
  root hs := by
    obtain ⟨m, rfl, -⟩ := sound_iff.1 hs
    exact ⟨rfl, .inl trivial⟩
  entryPoint hs := by rw [hs.1]
  objectUnique hs hab hcd := by
    obtain ⟨m, rfl, -⟩ := sound_iff.1 hs
    rw [hab.1, hcd.1]
  arrayUnique hs hab hcd := by
    obtain ⟨m, rfl, -⟩ := sound_iff.1 hs
    rw [hab.1, hcd.1]
  -- handles need not resolve here, because every error is admitted
  scope hs hab := by
    obtain ⟨m, rfl, h⟩ := sound_iff.1 hs
    obtain ⟨rfl, -⟩ := hab
    show (Regime.coded shape).Reads _ (m.heap.scope _) (m.heap.scope _)
    rw [Heap.scope_eq_elim]
    exact reads_get? fun s hget => (h.scopes _ s hget).1
  object hs hab := by
    obtain ⟨m, rfl, h⟩ := sound_iff.1 hs
    obtain ⟨rfl, -⟩ := hab
    show (Regime.coded shape).Reads _ (m.heap.object _) (m.heap.object _)
    rw [Heap.object_eq_elim]
    exact reads_get? fun c hget => h.objects _ c hget
  array hs hab := by
    obtain ⟨m, rfl, h⟩ := sound_iff.1 hs
    obtain ⟨rfl, -⟩ := hab
    show (Regime.coded shape).Reads _ (m.heap.array _) (m.heap.array _)
    rw [Heap.array_eq_elim]
    exact reads_get? fun c hget => h.arrays _ c hget
  resolve hs hab name := by
    obtain ⟨m, rfl, h⟩ := sound_iff.1 hs
    obtain ⟨rfl, -⟩ := hab
    exact resolves (Diagonal.resolves_resolveWithin (Diagonal.lawful_coded shape) h name _
      (.inl trivial))
  addScope {j s t} hs hst hsignals := by
    obtain ⟨m, rfl, h⟩ := sound_iff.1 hs
    have hst : Scope.Alike (coded shape).shape ((coded shape).pairing m.heap) s t := hst
    obtain rfl := Diagonal.eq_of_scope hst
    exact ⟨_, Diagonal.within_addScope h.wellFormed s, ⟨rfl, .inl trivial⟩,
      ⟨rfl, rfl, h.addScope (Diagonal.lawful_coded shape) hst hsignals⟩⟩
  addObject {j c d} hs hcd := by
    obtain ⟨m, rfl, h⟩ := sound_iff.1 hs
    have hcd : ObjectCell.Alike (coded shape).shape ((coded shape).pairing m.heap) c d := hcd
    obtain rfl := Diagonal.eq_of_object hcd
    exact ⟨_, Diagonal.within_addObject h.wellFormed c, ⟨rfl, .inl trivial⟩,
      ⟨rfl, rfl, h.addObject hcd⟩⟩
  addArray {j c d} hs hcd := by
    obtain ⟨m, rfl, h⟩ := sound_iff.1 hs
    have hcd : ArrayCell.Alike (coded shape).shape ((coded shape).pairing m.heap) c d := hcd
    obtain rfl := Diagonal.eq_of_array hcd
    exact ⟨_, Diagonal.within_addArray h.wellFormed c, ⟨rfl, .inl trivial⟩,
      ⟨rfl, rfl, h.addArray hcd⟩⟩
  -- both changes come to one heap, with code of the same shape in it
  modifyBindings {j a b f g} hs hab hfg := by
    obtain ⟨m, rfl, h⟩ := sound_iff.1 hs
    obtain ⟨rfl, -⟩ := hab
    obtain ⟨hcode, hsame⟩ := h.sameBindings (Diagonal.lawful_coded shape) hfg
    exact sound_withHeaps hcode hsame
  modifyObject {j a b f g} hs hab hfg := by
    obtain ⟨m, rfl, h⟩ := sound_iff.1 hs
    obtain ⟨rfl, -⟩ := hab
    obtain ⟨hcode, hsame⟩ := h.sameObject hfg
    exact sound_withHeaps hcode hsame
  modifyArray {j a b f g} hs hab hfg := by
    obtain ⟨m, rfl, h⟩ := sound_iff.1 hs
    obtain ⟨rfl, -⟩ := hab
    obtain ⟨hcode, hsame⟩ := h.sameArray hfg
    exact sound_withHeaps hcode hsame
  keep hbase huv hnow := by
    obtain ⟨b, rfl, -⟩ := sound_iff.1 hbase
    obtain ⟨n, rfl, hn⟩ := sound_iff.1 hnow
    obtain rfl := Diagonal.eq_of_alike (D := coded shape) huv
    exact ⟨rfl, rfl, hn⟩
  letGo hbase hnow := by
    obtain ⟨b, rfl, -⟩ := sound_iff.1 hbase
    obtain ⟨n, rfl, hn⟩ := sound_iff.1 hnow
    exact ⟨rfl, rfl, hn⟩
  faultLetGo hbase hfault := ⟨by rw [hfault.1, hbase.1], hfault.2⟩
  checkDepth hs := by
    obtain ⟨m, rfl, h⟩ := sound_iff.1 hs
    exact steps_checkDepth h
  deepen hs := by
    obtain ⟨m, rfl, h⟩ := sound_iff.1 hs
    exact ⟨rfl, rfl, h⟩
  surface hbase hnow := by
    obtain ⟨b, rfl, -⟩ := sound_iff.1 hbase
    obtain ⟨n, rfl, hn⟩ := sound_iff.1 hnow
    exact ⟨rfl, rfl, hn⟩
  faultSurface hbase hfault := ⟨by rw [hfault.1, hbase.1], hfault.2⟩
  stamps hs := by rw [hs.1]
  stamped hs := by
    obtain ⟨m, rfl, h⟩ := sound_iff.1 hs
    exact ⟨rfl, rfl, h⟩
  write {j text} hs := by
    obtain ⟨m, rfl, h⟩ := sound_iff.1 hs
    exact steps_write h text
  failsFlush hfault := by rw [hfault.1]

/-- The laws of statements: they neither follow a handle nor add code that was not there. -/
theorem signalling (shape : Shape) : (Regime.coded shape).Signalling where
  toLawful := lawful shape
  enter hs hab := by
    obtain ⟨m, rfl, h⟩ := sound_iff.1 hs
    obtain ⟨rfl, -⟩ := hab
    exact ⟨rfl, rfl, h⟩
  leave hbase hnow _ := by
    obtain ⟨b, rfl, -⟩ := sound_iff.1 hbase
    obtain ⟨n, rfl, hn⟩ := sound_iff.1 hnow
    exact ⟨rfl, rfl, hn⟩
  faultLeave hbase hfault := ⟨by rw [hfault.1, hbase.1], hfault.2⟩
  modifySignals {j a b f g} hs hab hfg := by
    obtain ⟨m, rfl, h⟩ := sound_iff.1 hs
    obtain ⟨rfl, -⟩ := hab
    obtain ⟨hcode, hsame⟩ := h.sameSignals (fun _ => trivial) hfg
    exact sound_withHeaps hcode hsame

end Coded

end Tao
