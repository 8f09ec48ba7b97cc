/-
  Runs that collect garbage at different times.

  The machines of two such runs are the same but for the names of their cells, for garbage, and for
  when the next collection is due.  Handles that once became partners stay so, even when one run has
  freed the cell that the other still has; a run that then follows the stale handle is excused, and
  so is one that runs out of fuel.  What remains is that two runs of which neither is excused cannot
  be told apart.
-/
import Tao.Proofs.Heap.Cells
import Tao.Proofs.Heap.Founded
import Tao.Proofs.Lockstep.Run

namespace Tao

/-- Two heaps that differ in the names of their cells, and in garbage. -/
structure Heap.Twins (p : Pairing) (left right : Heap) : Prop where
  scopes : Arena.Twins p.scope (Scope.Alike .any p) left.scopes right.scopes
  objects : Arena.Twins p.object (ObjectCell.Alike .any p) left.objects right.objects
  arrays : Arena.Twins p.array (ArrayCell.Alike .any p) left.arrays right.arrays
  founded : left.scopes.Founded ∧ right.scopes.Founded

/-- Did a computation follow a stale handle? -/
def Halt.IsStale (halt : Halt RuntimeError) : Prop :=
  ∃ e, halt = .failed e ∧ e.category = .internal

namespace Renaming

/-- Two machines that differ in the names of cells, in garbage and in when it is collected. -/
structure Sound (j : Joint) : Prop where
  heaps : Heap.Twins j.pairing j.left.heap j.right.heap
  scope : j.pairing.scope j.left.scope j.right.scope
  root : j.pairing.scope j.left.root j.right.root
  frames : List.Forall₂ j.pairing.scope j.left.frames j.right.frames
  maxCallDepth : j.left.config.maxCallDepth = j.right.config.maxCallDepth
  entryPoint : j.left.config.entryPoint = j.right.config.entryPoint
  sink : j.left.sink = j.right.sink
  depth : j.left.depth = j.right.depth
  stamps : j.left.stamps = j.right.stamps

/-- A run that followed a stale handle, or ran out of fuel, is excused. -/
def Excuses (halt : Halt RuntimeError) : Prop := halt = .outOfFuel ∨ halt.IsStale

/-- The regime of runs that collect garbage at different times. -/
def regime : Regime where
  shape := .any
  lasting := True
  Sound := Sound
  AtFault m m' := m.sink = m'.sink
  admits halt := ∃ e, halt = .failed e ∧ e.category ≠ .internal
  excusesLeft := Excuses
  excusesRight := Excuses

variable {p q : Pairing} {left right : Heap} {j : Joint} {a b : ScopeId}

/-! ## Reading -/

/-- A run that followed a stale handle is excused. -/
theorem excuses_stale {kind : CellKind} {id : Handle kind} :
    Excuses (.failed (.staleHandle kind id)) :=
  .inr ⟨_, rfl, rfl⟩

/-- The cells of partners are alike, or one of them is gone. -/
theorem reads_get? {kind : CellKind} {α : Type} {rel : Handle kind → Handle kind → Prop}
    {alike : α → α → Prop} {left right : Arena kind α} (h : Arena.Twins rel alike left right)
    {a b : Handle kind} (hab : rel a b) :
    regime.Reads alike ((left.get? a).elim (.error (.staleHandle kind a)) .ok)
      ((right.get? b).elim (.error (.staleHandle kind b)) .ok) := by
  cases ha : left.get? a with
  | none => exact .left excuses_stale
  | some c =>
    cases hb : right.get? b with
    | none => exact .right excuses_stale
    | some d => exact .ok (h.alike hab ha hb)

/-- Two walks outward through partners that both end, end alike.  Induction on the steps of the
    left one; the other may be allowed more or fewer. -/
theorem resolves_resolveWithin (h : Heap.Twins p left right) (name : String) {steps steps' : Nat}
    (hab : p.scope a b) (hends : left.resolveWithin name steps a ≠ .endless)
    (hends' : right.resolveWithin name steps' b ≠ .endless) :
    regime.Resolves p (left.resolveWithin name steps a) (right.resolveWithin name steps' b) := by
  induction steps generalizing a b steps' with
  | zero => exact absurd rfl hends
  | succ steps ih =>
    cases steps' with
    | zero => exact absurd rfl hends'
    | succ steps' =>
      unfold Heap.resolveWithin at hends hends' ⊢
      cases ha : left.scopes.get? a with
      | none => exact .left excuses_stale
      | some s =>
        cases hb : right.scopes.get? b with
        | none => exact .right excuses_stale
        | some t =>
          rw [ha] at hends
          rw [hb] at hends'
          have halike := h.scopes.alike hab ha hb
          have hvalue := halike.get? name
          have hparent := halike.parent
          dsimp only at hends hends' ⊢
          -- both scopes bind the name or neither does; both have a parent or neither has
          generalize s.get? name = x at hvalue hends ⊢
          generalize t.get? name = y at hvalue hends' ⊢
          cases hvalue with
          | some huv => exact .bound hab huv
          | none =>
            dsimp only at hends hends' ⊢
            generalize s.parent = x at hparent hends ⊢
            generalize t.parent = y at hparent hends' ⊢
            cases hparent with
            | some hpair => exact ih hpair hends hends'
            | none => exact .unbound halike

/-! ## Making cells -/

/-- Cells that are alike stay so when more handles become partners. -/
theorem twins_mono (h : Heap.Twins p left right) (hpq : p.Within q) :
    Arena.Twins p.scope (Scope.Alike .any q) left.scopes right.scopes ∧
    Arena.Twins p.object (ObjectCell.Alike .any q) left.objects right.objects ∧
    Arena.Twins p.array (ArrayCell.Alike .any q) left.arrays right.arrays :=
  ⟨h.scopes.mono fun _ _ hst => hst.mono hpq, h.objects.mono fun _ _ hcd => hcd.mono hpq,
    h.arrays.mono fun _ _ hcd => hcd.mono hpq⟩

/-- The parents of scopes that are alike were given out. -/
theorem issued_parent (h : Heap.Twins p left right) {s t : Scope} (hst : Scope.Alike .any p s t) :
    (∀ parent, s.parent = some parent → left.scopes.Issued parent) ∧
    ∀ parent, t.parent = some parent → right.scopes.Issued parent := by
  have hparent := hst.parent
  generalize s.parent = x at hparent
  generalize t.parent = y at hparent
  cases hparent with
  | none => exact ⟨nofun, nofun⟩
  | some hpair =>
    obtain ⟨hleft, hright⟩ := h.scopes.issued hpair
    exact ⟨fun parent h => Option.some.inj h ▸ hleft, fun parent h => Option.some.inj h ▸ hright⟩

/-- The pairing in which one more pair of scopes are partners. -/
def alsoScope (p : Pairing) (a b : ScopeId) : Pairing := { p with scope := Arena.Also p.scope a b }

/-- The same for a pair of objects. -/
def alsoObject (p : Pairing) (a b : ObjectId) : Pairing :=
  { p with object := Arena.Also p.object a b }

/-- The same for a pair of arrays. -/
def alsoArray (p : Pairing) (a b : ArrayId) : Pairing := { p with array := Arena.Also p.array a b }

/-- What was paired still is when two more cells become partners. -/
theorem within_alsoScope (p : Pairing) (a b : ScopeId) : p.Within (alsoScope p a b) :=
  ⟨fun _ _ h => .inl h, fun _ _ h => h, fun _ _ h => h⟩

theorem within_alsoObject (p : Pairing) (a b : ObjectId) : p.Within (alsoObject p a b) :=
  ⟨fun _ _ h => h, fun _ _ h => .inl h, fun _ _ h => h⟩

theorem within_alsoArray (p : Pairing) (a b : ArrayId) : p.Within (alsoArray p a b) :=
  ⟨fun _ _ h => h, fun _ _ h => h, fun _ _ h => .inl h⟩

/-- Making scopes that are alike in both heaps makes them partners. -/
theorem twins_addScope (h : Heap.Twins p left right) {s t : Scope}
    (hst : Scope.Alike .any p s t) :
    Heap.Twins (alsoScope p (left.addScope s).2 (right.addScope t).2) (left.addScope s).1
      (right.addScope t).1 := by
  have hwithin := within_alsoScope p (left.addScope s).2 (right.addScope t).2
  obtain ⟨hscopes, hobjects, harrays⟩ := twins_mono h hwithin
  obtain ⟨hleft, hright⟩ := issued_parent h hst
  exact ⟨hscopes.insert (hst.mono hwithin), hobjects, harrays,
    h.founded.1.insert h.scopes.wellFormed.1 hleft, h.founded.2.insert h.scopes.wellFormed.2 hright⟩

/-- Making objects that are alike in both heaps makes them partners. -/
theorem twins_addObject (h : Heap.Twins p left right) {c d : ObjectCell}
    (hcd : ObjectCell.Alike .any p c d) :
    Heap.Twins (alsoObject p (left.addObject c).2 (right.addObject d).2) (left.addObject c).1
      (right.addObject d).1 := by
  have hwithin := within_alsoObject p (left.addObject c).2 (right.addObject d).2
  obtain ⟨hscopes, hobjects, harrays⟩ := twins_mono h hwithin
  exact ⟨hscopes, hobjects.insert (hcd.mono hwithin), harrays, h.founded⟩

/-- Making arrays that are alike in both heaps makes them partners. -/
theorem twins_addArray (h : Heap.Twins p left right) {c d : ArrayCell}
    (hcd : ArrayCell.Alike .any p c d) :
    Heap.Twins (alsoArray p (left.addArray c).2 (right.addArray d).2) (left.addArray c).1
      (right.addArray d).1 := by
  have hwithin := within_alsoArray p (left.addArray c).2 (right.addArray d).2
  obtain ⟨hscopes, hobjects, harrays⟩ := twins_mono h hwithin
  exact ⟨hscopes, hobjects, harrays.insert (hcd.mono hwithin), h.founded⟩

/-- Changes of partners that move no scope. -/
theorem twins_modifyScope (h : Heap.Twins p left right) (hab : p.scope a b)
    {f g : Scope → Scope} (hf : ∀ s, (f s).parent = s.parent) (hg : ∀ s, (g s).parent = s.parent)
    (hfg : ∀ s t, Scope.Alike .any p s t → Scope.Alike .any p (f s) (g t)) :
    Heap.Twins p (left.modifyScope a f) (right.modifyScope b g) :=
  ⟨h.scopes.modify hab hfg, h.objects, h.arrays, h.founded.1.modify a hf, h.founded.2.modify b hg⟩

/-! ## Sound joints -/

/-- Changing the heaps into other twins, with more partners, leaves a joint sound. -/
theorem Sound.withHeaps (hs : Sound j) (hwithin : j.pairing.Within p)
    (h : Heap.Twins p left right) : Sound (j.withHeaps p left right) where
  heaps := h
  scope := hwithin.scope _ _ hs.scope
  root := hwithin.scope _ _ hs.root
  frames := hs.frames.imp hwithin.scope
  maxCallDepth := hs.maxCallDepth
  entryPoint := hs.entryPoint
  sink := hs.sink
  depth := hs.depth
  stamps := hs.stamps

/-- Other active scopes and other scopes to come back to. -/
theorem Sound.inScopes (hs : Sound j) {as bs : List ScopeId} (hab : j.pairing.scope a b)
    (hframes : List.Forall₂ j.pairing.scope as bs) : Sound (j.inScopes a as b bs) :=
  ⟨hs.heaps, hab, hs.root, hframes, hs.maxCallDepth, hs.entryPoint, hs.sink, hs.depth, hs.stamps⟩

/-- Partners are pinned. -/
theorem pinnedScope_of_paired (hab : j.pairing.scope a b) : regime.PinnedScope j a b :=
  ⟨hab, .inl trivial⟩

/-- The sinks are the same, so both sides write the same or are refused alike. -/
theorem steps_write (hs : Sound j) (text : String) :
    regime.Steps true j (Eval.write text) (Eval.write text) fun _ _ _ => True := by
  have hsound : regime.Sound j := hs
  unfold Regime.Steps
  rw [Eval.write_apply, Eval.write_apply, ← hs.sink]
  split
  · exact .ok hsound .refl trivial
  · split
    · let now : Joint := ⟨j.pairing,
        { j.left with sink := { j.left.sink with written := j.left.sink.written ++ text } },
        { j.right with sink := { j.left.sink with written := j.left.sink.written ++ text } }⟩
      have hnow : regime.Sound now := Sound.mk hs.heaps hs.scope hs.root hs.frames hs.maxCallDepth
        hs.entryPoint rfl hs.depth hs.stamps
      exact .ok hnow ⟨⟨rfl, rfl⟩, fun _ _ h => ⟨h.alike, h.kept⟩, fun _ _ h => ⟨h.paired, h.kept⟩,
        fun _ => ⟨rfl, rfl⟩⟩ trivial
    · exact .error ⟨_, rfl, nofun⟩ hs.sink

/-- The depths are the same, and so are the limits. -/
theorem steps_checkDepth (hs : Sound j) :
    regime.Steps true j Evaluator.checkDepth Evaluator.checkDepth fun now _ _ => now = j := by
  have hsound : regime.Sound j := hs
  unfold Regime.Steps Evaluator.checkDepth
  rw [← hs.maxCallDepth, ← hs.depth]
  split
  · exact .error ⟨_, rfl, nofun⟩ hs.sink
  · exact .ok hsound .refl rfl

/-- **The regime is lawful.** -/
theorem lawful : regime.Lawful where
  admits he := ⟨_, rfl, he⟩
  fault hs := hs.sink
  active hs := hs.scope
  root hs := hs.root
  entryPoint hs := hs.entryPoint
  objectUnique hs := hs.heaps.objects.unique
  arrayUnique hs := hs.heaps.arrays.unique
  scope hs hab := by
    rw [Heap.scope_eq_elim, Heap.scope_eq_elim]
    exact reads_get? hs.heaps.scopes hab
  object hs hab := by
    rw [Heap.object_eq_elim, Heap.object_eq_elim]
    exact reads_get? hs.heaps.objects hab
  array hs hab := by
    rw [Heap.array_eq_elim, Heap.array_eq_elim]
    exact reads_get? hs.heaps.arrays hab
  -- the chains of both heaps end, though one heap may have more slots than the other
  resolve hs hab name := resolves_resolveWithin hs.heaps name hab
    (Heap.resolve_ne_endless hs.heaps.founded.1 _ name)
    (Heap.resolve_ne_endless hs.heaps.founded.2 _ name)
  -- two new cells become partners
  addScope {j s t} hs hst _ :=
    ⟨_, within_alsoScope .., .inr ⟨rfl, rfl⟩, hs.withHeaps (within_alsoScope ..)
      (twins_addScope hs.heaps hst)⟩
  addObject {j c d} hs hcd :=
    ⟨_, within_alsoObject .., .inr ⟨rfl, rfl⟩, hs.withHeaps (within_alsoObject ..)
      (twins_addObject hs.heaps hcd)⟩
  addArray {j c d} hs hcd :=
    ⟨_, within_alsoArray .., .inr ⟨rfl, rfl⟩, hs.withHeaps (within_alsoArray ..)
      (twins_addArray hs.heaps hcd)⟩
  modifyBindings hs hab hfg := hs.withHeaps (.refl _) (twins_modifyScope hs.heaps hab
    (fun _ => rfl) (fun _ => rfl) fun _ _ hst =>
      ⟨hfg _ _ hst.bindings, hst.parent, hst.broke, hst.returned⟩)
  modifyObject hs hab hfg := hs.withHeaps (.refl _)
    ⟨hs.heaps.scopes, hs.heaps.objects.modify hab hfg, hs.heaps.arrays, hs.heaps.founded⟩
  modifyArray hs hab hfg := hs.withHeaps (.refl _)
    ⟨hs.heaps.scopes, hs.heaps.objects, hs.heaps.arrays.modify hab hfg, hs.heaps.founded⟩
  -- what is left to do changes neither heaps nor partners
  keep _ _ hs := Sound.mk hs.heaps hs.scope hs.root hs.frames hs.maxCallDepth hs.entryPoint hs.sink
    hs.depth hs.stamps
  letGo _ hs := Sound.mk hs.heaps hs.scope hs.root hs.frames hs.maxCallDepth hs.entryPoint hs.sink
    hs.depth hs.stamps
  faultLetGo _ hfault := hfault
  checkDepth hs := steps_checkDepth hs
  deepen hs := Sound.mk hs.heaps hs.scope hs.root hs.frames hs.maxCallDepth hs.entryPoint hs.sink
    (congrArg (· + 1) hs.depth) hs.stamps
  surface hbase hs := Sound.mk hs.heaps hs.scope hs.root hs.frames hs.maxCallDepth hs.entryPoint
    hs.sink hbase.depth hs.stamps
  faultSurface _ hfault := hfault
  stamps hs := hs.stamps
  stamped hs := Sound.mk hs.heaps hs.scope hs.root hs.frames hs.maxCallDepth hs.entryPoint hs.sink
    hs.depth (congrArg (· + 1) hs.stamps)
  write hs := steps_write hs _
  failsFlush hfault := congrArg Sink.failsFlush hfault

/-- The laws of statements: scopes and signals concern partners only. -/
theorem signalling : regime.Signalling where
  toLawful := lawful
  enter hs hab := Sound.inScopes hs hab (.cons (Sound.scope hs) (Sound.frames hs))
  leave hbase hnow hback := Sound.inScopes hnow
    (hback _ _ (pinnedScope_of_paired hbase.scope))
    (hbase.frames.imp fun _ _ hab => hback _ _ (pinnedScope_of_paired hab))
  faultLeave _ hfault := hfault
  modifySignals hs hab hfg := Sound.withHeaps hs (.refl _) (twins_modifyScope hs.heaps hab
    (fun _ => rfl) (fun _ => rfl) fun s t hst =>
      ⟨hst.bindings, hst.parent, (hfg s t hst).1, (hfg s t hst).2⟩)

end Renaming

end Tao
