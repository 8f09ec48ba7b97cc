/-
  What a regime has to prove.

  `Lawful` lists, one law for each operation of the machine, what keeps a regime sound; the rest of
  a comparison is the same for all regimes and is derived here and in the modules that follow.  What
  only statements do, that is to enter scopes and to raise and lower signals, is the subject of
  `Signalling`.

  The laws about values kept alive and about scopes to come back to speak of two joints: one where a
  combinator of `Eval` began and one where it ends and gives back what it found.
-/
import Tao.Evaluator.Call
import Tao.Run
import Tao.Proofs.Lockstep.Steps

namespace Tao

namespace Regime

/-- How two walks outward, in search of the same name, may end. -/
inductive Resolves (R : Regime) (p : Pairing) : Resolution → Resolution → Prop where
  | bound {a b : ScopeId} {u v : Value} (paired : p.scope a b) (alike : Value.Alike R.shape p u v) :
    Resolves R p (.bound a u) (.bound b v)
  | unbound {s t : Scope} (alike : Scope.Alike R.shape p s t) : Resolves R p (.unbound s) (.unbound t)
  | stale {id : ScopeId} (admitted : R.admits (.failed (.staleHandle .scope id))) :
    Resolves R p (.stale id) (.stale id)
  | endless : Resolves R p .endless .endless
  | left {id : ScopeId} {r : Resolution}
    (excused : R.excusesLeft (.failed (.staleHandle .scope id))) : Resolves R p (.stale id) r
  | right {id : ScopeId} {r : Resolution}
    (excused : R.excusesRight (.failed (.staleHandle .scope id))) : Resolves R p r (.stale id)

/-- The laws of a regime. -/
structure Lawful (R : Regime) : Prop where
  /-- Both runs may fail in any way but by a stale handle. -/
  admits : ∀ {e : RuntimeError}, e.category ≠ .internal → R.admits (.failed e)
  -- what a sound joint is like
  fault : ∀ {j}, R.Sound j → R.AtFault j.left j.right
  active : ∀ {j}, R.Sound j → j.pairing.scope j.left.scope j.right.scope
  root : ∀ {j}, R.Sound j → j.pairing.scope j.left.root j.right.root
  entryPoint : ∀ {j}, R.Sound j → j.left.config.entryPoint = j.right.config.entryPoint
  objectUnique : ∀ {j a b c d}, R.Sound j → j.pairing.object a b → j.pairing.object c d →
    (a = c ↔ b = d)
  arrayUnique : ∀ {j a b c d}, R.Sound j → j.pairing.array a b → j.pairing.array c d →
    (a = c ↔ b = d)
  -- reading
  scope : ∀ {j a b}, R.Sound j → j.pairing.scope a b →
    R.Reads (Scope.Alike R.shape j.pairing) (j.left.heap.scope a) (j.right.heap.scope b)
  object : ∀ {j a b}, R.Sound j → j.pairing.object a b →
    R.Reads (ObjectCell.Alike R.shape j.pairing) (j.left.heap.object a) (j.right.heap.object b)
  array : ∀ {j a b}, R.Sound j → j.pairing.array a b →
    R.Reads (ArrayCell.Alike R.shape j.pairing) (j.left.heap.array a) (j.right.heap.array b)
  resolve : ∀ {j a b}, R.Sound j → j.pairing.scope a b → ∀ name,
    R.Resolves j.pairing (j.left.heap.resolve a name) (j.right.heap.resolve b name)
  -- making cells
  addScope : ∀ {j s t}, R.Sound j → Scope.Alike R.shape j.pairing s t → s.signalled = false →
    ∃ p, j.pairing.Within p ∧ p.scope (j.left.heap.addScope s).2 (j.right.heap.addScope t).2 ∧
      R.Sound (j.withHeaps p (j.left.heap.addScope s).1 (j.right.heap.addScope t).1)
  addObject : ∀ {j c d}, R.Sound j → ObjectCell.Alike R.shape j.pairing c d →
    ∃ p, j.pairing.Within p ∧ p.object (j.left.heap.addObject c).2 (j.right.heap.addObject d).2 ∧
      R.Sound (j.withHeaps p (j.left.heap.addObject c).1 (j.right.heap.addObject d).1)
  addArray : ∀ {j c d}, R.Sound j → ArrayCell.Alike R.shape j.pairing c d →
    ∃ p, j.pairing.Within p ∧ p.array (j.left.heap.addArray c).2 (j.right.heap.addArray d).2 ∧
      R.Sound (j.withHeaps p (j.left.heap.addArray c).1 (j.right.heap.addArray d).1)
  -- changing cells
  modifyBindings : ∀ {j a b} {f g : List (String × Value) → List (String × Value)}, R.Sound j →
    j.pairing.scope a b →
    (∀ xs ys, Named.Rel (R.Alike j) xs ys → Named.Rel (R.Alike j) (f xs) (g ys)) →
    R.Sound (j.withHeaps j.pairing
      (j.left.heap.modifyScope a fun s => { s with bindings := f s.bindings })
      (j.right.heap.modifyScope b fun t => { t with bindings := g t.bindings }))
  modifyObject : ∀ {j a b f g}, R.Sound j → j.pairing.object a b →
    (∀ c d, ObjectCell.Alike R.shape j.pairing c d →
      ObjectCell.Alike R.shape j.pairing (f c) (g d)) →
    R.Sound (j.withHeaps j.pairing (j.left.heap.modifyObject a f) (j.right.heap.modifyObject b g))
  modifyArray : ∀ {j a b f g}, R.Sound j → j.pairing.array a b →
    (∀ c d, ArrayCell.Alike R.shape j.pairing c d →
      ArrayCell.Alike R.shape j.pairing (f c) (g d)) →
    R.Sound (j.withHeaps j.pairing (j.left.heap.modifyArray a f) (j.right.heap.modifyArray b g))
  -- values kept alive
  keep : ∀ {base now u v}, R.Sound base → R.Alike base u v → R.Sound now →
    R.Sound (now.holding (u :: now.left.held) (v :: now.right.held))
  letGo : ∀ {base now}, R.Sound base → R.Sound now →
    R.Sound (now.holding base.left.held base.right.held)
  faultLetGo : ∀ {base m m'}, R.Sound base → R.AtFault m m' →
    R.AtFault { m with held := base.left.held } { m' with held := base.right.held }
  -- calls
  checkDepth : ∀ {j}, R.Sound j →
    R.Steps true j Evaluator.checkDepth Evaluator.checkDepth fun now _ _ => now = j
  deepen : ∀ {j}, R.Sound j → R.Sound (j.atDepths (j.left.depth + 1) (j.right.depth + 1))
  surface : ∀ {base now}, R.Sound base → R.Sound now →
    R.Sound (now.atDepths base.left.depth base.right.depth)
  faultSurface : ∀ {base m m'}, R.Sound base → R.AtFault m m' →
    R.AtFault { m with depth := base.left.depth } { m' with depth := base.right.depth }
  -- stamps and output
  stamps : ∀ {j}, R.Sound j → j.left.stamps = j.right.stamps
  stamped : ∀ {j}, R.Sound j → R.Sound j.stamped
  write : ∀ {j text}, R.Sound j →
    R.Steps true j (Eval.write text) (Eval.write text) fun _ _ _ => True
  failsFlush : ∀ {m m'}, R.AtFault m m' → m.sink.failsFlush = m'.sink.failsFlush

/-- The laws of statements: they run in scopes of their own, and raise and lower signals. -/
structure Signalling (R : Regime) : Prop extends Lawful R where
  -- scopes to come back to
  enter : ∀ {j a b}, R.Sound j → j.pairing.scope a b →
    R.Sound (j.inScopes a (j.left.scope :: j.left.frames) b (j.right.scope :: j.right.frames))
  leave : ∀ {base now}, R.Sound base → R.Sound now →
    (∀ a b, R.PinnedScope base a b → now.pairing.scope a b) →
    R.Sound (now.inScopes base.left.scope base.left.frames base.right.scope base.right.frames)
  faultLeave : ∀ {base m m'}, R.Sound base → R.AtFault m m' →
    R.AtFault { m with scope := base.left.scope, frames := base.left.frames }
      { m' with scope := base.right.scope, frames := base.right.frames }
  -- signals
  modifySignals : ∀ {j a b} {f g : Scope → Bool × Option Value}, R.Sound j → j.pairing.scope a b →
    (∀ s t, Scope.Alike R.shape j.pairing s t →
      (f s).1 = (g t).1 ∧ Option.Rel (R.Alike j) (f s).2 (g t).2) →
    R.Sound (j.withHeaps j.pairing
      (j.left.heap.modifyScope a fun s => { s with broke := (f s).1, returned := (f s).2 })
      (j.right.heap.modifyScope b fun t => { t with broke := (g t).1, returned := (g t).2 }))

variable {R : Regime} {α β γ δ : Type} {exact : Bool} {base j now : Joint} {u v : Value}

/-! ## Failing -/

/-- Both sides fail with the same error. -/
theorem Steps.fail (hR : R.Lawful) (hs : R.Sound j) {post : Joint → α → β → Prop}
    {e : RuntimeError} (he : e.category ≠ .internal) : R.Steps exact j (fail e) (fail e) post :=
  .error (hR.admits he) (hR.fault hs)

/-- A computation that looks at no handle reads the same on both sides. -/
theorem Reads.same (hR : R.Lawful) {x : Except RuntimeError α}
    (hx : ∀ e, x = .error e → e.category ≠ .internal) : R.Reads Eq x x := by
  cases x with
  | ok a => exact .ok rfl
  | error e => exact .error (hR.admits (hx e rfl))

/-- Reading from sound joints, where the law about faults is at hand. -/
theorem Steps.readFrom (hR : R.Lawful) (hs : R.Sound j) {f : Heap → Except RuntimeError α}
    {g : Heap → Except RuntimeError β} {post : α → β → Prop}
    (h : R.Reads post (f j.left.heap) (g j.right.heap)) :
    R.Steps exact j (Eval.read f) (Eval.read g) fun now a b => now = j ∧ post a b :=
  .read hs (hR.fault hs) h

/-- The same for values. -/
theorem Steps.readAlike (hR : R.Lawful) (hs : R.Sound j) {f g : Heap → Except RuntimeError Value}
    (h : R.Reads (R.Alike j) (f j.left.heap) (g j.right.heap)) :
    R.Steps exact j (Eval.read f) (Eval.read g) R.Alike :=
  (Steps.readFrom hR hs h).weaken fun _ _ _ h => h.1 ▸ h.2

/-! ## Parts of the machine -/

/-- The active scopes are paired. -/
theorem Steps.activeScope (hR : R.Lawful) (hs : R.Sound j) :
    R.Steps exact j Eval.activeScope Eval.activeScope fun now a b =>
      now = j ∧ a = j.left.scope ∧ b = j.right.scope ∧ j.pairing.scope a b :=
  .ok hs .refl ⟨rfl, rfl, rfl, hR.active hs⟩

/-- The values held are looked at. -/
theorem Steps.held (hs : R.Sound j) : R.Steps exact j Eval.held Eval.held fun now us vs =>
    now = j ∧ us = j.left.held ∧ vs = j.right.held :=
  .ok hs .refl ⟨rfl, rfl, rfl⟩

/-- Both sides give out the same stamp. -/
theorem Steps.freshStamp (hR : R.Lawful) (hs : R.Sound j) :
    R.Steps exact j Eval.freshStamp Eval.freshStamp fun now a b =>
      now.pairing = j.pairing ∧ a = b :=
  have hleads : R.Leads exact j j.stamped := ⟨⟨rfl, rfl⟩, fun _ _ h => ⟨h.alike, h.kept⟩,
    fun _ _ h => ⟨h.paired, h.kept⟩, fun _ => ⟨rfl, rfl⟩⟩
  .ok (hR.stamped hs) hleads ⟨rfl, hR.stamps hs⟩

/-- Values that are alike are both true, or neither is: what is empty is so on both sides. -/
theorem Reads.truthy (hR : R.Lawful) (hs : R.Sound j) (h : R.Alike j u v) :
    R.Reads Eq (j.left.heap.truthy u) (j.right.heap.truthy v) := by
  cases h with
  | object hab =>
    refine (hR.object hs hab).map fun c d hcd => ?_
    rw [Bool.eq_iff_iff, Bool.not_eq_true', Bool.not_eq_true', ← Bool.not_eq_true,
      ← Bool.not_eq_true, List.isEmpty_iff_length_eq_zero, List.isEmpty_iff_length_eq_zero,
      hcd.length_eq]
  | array hab =>
    refine (hR.array hs hab).map fun c d hcd => ?_
    rw [Array.isEmpty, Array.isEmpty, hcd.size_eq]
  | nil | boolean _ | number _ | string _ | function _ _ | print | println | len | arrayMethod _ _ _
  | stringMethod _ _ _ | maker _ => exact .ok rfl

/-- The same as a step. -/
theorem Steps.truthy (hR : R.Lawful) (hs : R.Sound j) (h : R.Alike j u v) :
    R.Steps exact j (Eval.truthy u) (Eval.truthy v) fun now a b => now = j ∧ a = b :=
  .readFrom hR hs (.truthy hR hs h)

/-! ## Values kept alive -/

/-- Keeping values that are alike, or once were. -/
theorem Steps.keep (hR : R.Lawful) (hbase : R.Sound base) (h : R.Alike base u v)
    (hs : R.Sound now) : R.Steps false now (Eval.keep u) (Eval.keep v) fun next _ _ =>
      next = now.holding (u :: now.left.held) (v :: now.right.held) :=
  .ok (hR.keep hbase h hs)
    ⟨⟨rfl, rfl⟩,
      fun _ _ h => ⟨h.alike, h.kept.imp_right fun h =>
        ⟨List.mem_cons_of_mem _ h.1, List.mem_cons_of_mem _ h.2⟩⟩,
      fun _ _ h => ⟨h.paired, h.kept⟩, fun h => absurd h Bool.false_ne_true⟩ rfl

/-- What is kept is pinned. -/
theorem pinned_holding (h : R.Alike j u v) :
    R.Pinned (j.holding (u :: j.left.held) (v :: j.right.held)) u v :=
  ⟨h, .inr ⟨List.mem_cons_self, List.mem_cons_self⟩⟩

/-- Keeping the values of two computations pins them. -/
theorem Steps.kept (hR : R.Lawful) {x y : Eval Value} (h : R.Steps false j x y R.Alike) :
    R.Steps false j (Eval.kept x) (Eval.kept y) R.Pinned := by
  refine h.bind fun now u v hs _ huv => ?_
  refine (Steps.keep hR hs huv hs).bind fun next _ _ hs _ hnext => ?_
  subst hnext
  exact .pure hs (pinned_holding huv)

/-- Going back to the values that were held at the start. -/
theorem Leads.letGo (h : R.Leads exact base now) :
    R.Leads true base (now.holding base.left.held base.right.held) where
  roots := h.roots
  pinned u v huv := ⟨(h.pinned u v huv).alike, huv.kept⟩
  pinnedScope a b hab := ⟨(h.pinnedScope a b hab).paired, (h.pinnedScope a b hab).kept⟩
  held _ := ⟨rfl, rfl⟩

/-- Letting go of what two computations held leaves what was held at the start. -/
theorem Steps.lettingGo (hR : R.Lawful) (hs : R.Sound j) {x : Eval α} {y : Eval β}
    {P : Pairing → α → β → Prop} (h : R.Steps exact j x y fun now a b => P now.pairing a b) :
    R.Steps true j (Eval.lettingGo x) (Eval.lettingGo y) fun now a b => P now.pairing a b := by
  unfold Steps at h ⊢
  unfold Eval.lettingGo
  generalize x j.left = r at h
  generalize y j.right = s at h
  cases h with
  | ok sound leads holds => exact .ok (hR.letGo hs sound) leads.letGo holds
  | error admitted fault => exact .error admitted (hR.faultLetGo hs fault)
  | left excused => exact .left excused
  | right excused => exact .right excused

/-- Setting the held values back to those of the start, once a computation has succeeded. -/
theorem Steps.bindSetHeld (hR : R.Lawful) (hs : R.Sound j) {x : Eval α} {y : Eval β}
    {f : α → Unit → Eval γ} {g : β → Unit → Eval δ} {Q : α → β → Prop}
    {P : Joint → γ → δ → Prop} (hx : R.Steps false j x y fun _ a b => Q a b)
    (hf : ∀ now a b, R.Sound now → R.Leads true j now → Q a b →
      R.Steps true now (f a ()) (g b ()) P) :
    R.Steps true j (x >>= fun a => Eval.setHeld j.left.held >>= f a)
      (y >>= fun b => Eval.setHeld j.right.held >>= g b) P := by
  unfold Steps at hx ⊢
  rw [EStateM.bind_apply, EStateM.bind_apply]
  generalize x j.left = r at hx
  generalize y j.right = s at hx
  cases hx with
  | ok sound leads holds =>
    exact .rebase leads.letGo (hf _ _ _ (hR.letGo hs sound) leads.letGo holds)
  | error admitted fault => exact .error admitted fault
  | left excused => exact .left excused
  | right excused => exact .right excused

/-! ## Scopes to come back to -/

/-- Roots are still roots in an inner scope. -/
theorem mem_roots_entered {m : Machine} {a c : ScopeId} (h : c ∈ m.roots) :
    c ∈ ({ m with scope := a, frames := m.scope :: m.frames } : Machine).roots := by
  rcases List.mem_cons.1 h with rfl | h
  · exact List.mem_cons_self
  · exact List.mem_cons_of_mem _ (List.mem_cons_of_mem _ h)

/-- Scopes that are pinned stay so inside of others. -/
theorem PinnedScope.entered {a b c d : ScopeId} (h : R.PinnedScope j c d) :
    R.PinnedScope (j.inScopes a (j.left.scope :: j.left.frames) b
      (j.right.scope :: j.right.frames)) c d :=
  ⟨h.paired, h.kept.imp_right fun h => ⟨mem_roots_entered h.1, mem_roots_entered h.2⟩⟩

/-- Active scopes are pinned if they are paired. -/
theorem pinnedScope_active (h : j.pairing.scope j.left.scope j.right.scope) :
    R.PinnedScope j j.left.scope j.right.scope :=
  ⟨h, .inr ⟨List.mem_cons_of_mem _ List.mem_cons_self, List.mem_cons_of_mem _ List.mem_cons_self⟩⟩

/-- Two computations inside of paired scopes.  The scopes around are pinned meanwhile, and so they
    are paired when they become the active ones again. -/
theorem Steps.within (hR : R.Signalling) (hs : R.Sound j) {a b : ScopeId} (hab : j.pairing.scope a b)
    {x y : Eval Unit}
    (h : R.Sound (j.inScopes a (j.left.scope :: j.left.frames) b
        (j.right.scope :: j.right.frames)) →
      R.Steps exact
        (j.inScopes a (j.left.scope :: j.left.frames) b (j.right.scope :: j.right.frames))
        x y fun _ _ _ => True) :
    R.Steps exact j (Eval.within a x) (Eval.within b y) fun now _ _ => now.pairing.scope a b := by
  have hin := h (hR.enter hs hab)
  unfold Steps at hin ⊢
  rw [Eval.within_apply, Eval.within_apply]
  change R.Ends exact (j.inScopes a (j.left.scope :: j.left.frames) b
      (j.right.scope :: j.right.frames)) _
    (x { j.left with scope := a, frames := j.left.scope :: j.left.frames })
    (y { j.right with scope := b, frames := j.right.scope :: j.right.frames }) at hin
  generalize x { j.left with scope := a, frames := j.left.scope :: j.left.frames } = r at hin
  generalize y { j.right with scope := b, frames := j.right.scope :: j.right.frames } = s at hin
  cases hin with
  | @ok now _ _ sound leads holds =>
    -- the scopes to come back to were roots inside, so they are still paired
    have hpinned : ∀ c d, R.PinnedScope j c d → R.PinnedScope now c d := fun c d hcd =>
      leads.pinnedScope c d hcd.entered
    have hactive : R.PinnedScope now a b := leads.pinnedScope a b (pinnedScope_active hab)
    have hsound := hR.leave hs sound fun c d hcd => (hpinned c d hcd).paired
    refine .ok hsound ?_ hactive.paired
    have hleft : (now.inScopes j.left.scope j.left.frames j.right.scope j.right.frames).left.roots =
        j.left.roots :=
      congrArg (· :: j.left.scope :: j.left.frames) (List.cons.inj leads.roots.1).1
    have hright : (now.inScopes j.left.scope j.left.frames j.right.scope
        j.right.frames).right.roots = j.right.roots :=
      congrArg (· :: j.right.scope :: j.right.frames) (List.cons.inj leads.roots.2).1
    refine ⟨⟨hleft, hright⟩, fun u v huv => ?_, fun c d hcd => ?_, leads.held⟩
    · have hnow := leads.pinned u v ⟨huv.alike, huv.kept⟩
      exact ⟨hnow.alike, hnow.kept⟩
    · refine ⟨(hpinned c d hcd).paired, hcd.kept.imp_right fun hroots => ?_⟩
      rw [hleft, hright]
      exact hroots
  | error admitted fault => exact .error admitted (hR.faultLeave hs fault)
  | left excused => exact .left excused
  | right excused => exact .right excused

/-- Two computations one call deeper. -/
theorem Steps.deeper (hR : R.Lawful) (hs : R.Sound j) {x : Eval α} {y : Eval β}
    {P : Pairing → α → β → Prop}
    (h : R.Steps exact (j.atDepths (j.left.depth + 1) (j.right.depth + 1)) x y
      fun now a b => P now.pairing a b) :
    R.Steps exact j (Eval.deeper x) (Eval.deeper y) fun now a b => P now.pairing a b := by
  unfold Steps at h ⊢
  rw [Eval.deeper_apply, Eval.deeper_apply]
  change R.Ends exact (j.atDepths (j.left.depth + 1) (j.right.depth + 1)) _
    (x { j.left with depth := j.left.depth + 1 })
    (y { j.right with depth := j.right.depth + 1 }) at h
  generalize x { j.left with depth := j.left.depth + 1 } = r at h
  generalize y { j.right with depth := j.right.depth + 1 } = s at h
  cases h with
  | @ok now _ _ sound leads holds =>
    refine .ok (hR.surface hs sound) ?_ holds
    refine ⟨leads.roots, fun u v huv => ?_, fun c d hcd => ?_, leads.held⟩
    · have hnow := leads.pinned u v ⟨huv.alike, huv.kept⟩
      exact ⟨hnow.alike, hnow.kept⟩
    · have hnow := leads.pinnedScope c d ⟨hcd.paired, hcd.kept⟩
      exact ⟨hnow.paired, hnow.kept⟩
  | error admitted fault => exact .error admitted (hR.faultSurface hs fault)
  | left excused => exact .left excused
  | right excused => exact .right excused

/-! ## Making cells -/

/-- Making scopes that are alike pairs them. -/
theorem Steps.addScope (hR : R.Lawful) (hs : R.Sound j) {s t : Scope}
    (hst : Scope.Alike R.shape j.pairing s t) (hsignals : s.signalled = false) :
    R.Steps exact j (Eval.make (·.addScope s)) (Eval.make (·.addScope t))
      fun now a b => now.pairing.scope a b := by
  obtain ⟨p, hp, hab, hs'⟩ := hR.addScope hs hst hsignals
  exact .ok hs' (.ofHeaps hp _ _) hab

/-- Making scopes inside of paired ones. -/
theorem Steps.newScope (hR : R.Lawful) (hs : R.Sound j) {a b : ScopeId}
    (hab : j.pairing.scope a b) :
    R.Steps exact j (Eval.newScope a) (Eval.newScope b) fun now c d => now.pairing.scope c d :=
  .addScope hR hs (Scope.alike_inside hab) rfl

/-- Making objects that are alike pairs them. -/
theorem Steps.addObject (hR : R.Lawful) (hs : R.Sound j) {c d : ObjectCell}
    (hcd : ObjectCell.Alike R.shape j.pairing c d) :
    R.Steps exact j (Eval.make (·.addObject c)) (Eval.make (·.addObject d))
      fun now a b => now.pairing.object a b := by
  obtain ⟨p, hp, hab, hs'⟩ := hR.addObject hs hcd
  exact .ok hs' (.ofHeaps hp _ _) hab

/-- Making arrays that are alike pairs them. -/
theorem Steps.addArray (hR : R.Lawful) (hs : R.Sound j) {c d : ArrayCell}
    (hcd : ArrayCell.Alike R.shape j.pairing c d) :
    R.Steps exact j (Eval.make (·.addArray c)) (Eval.make (·.addArray d))
      fun now a b => now.pairing.array a b := by
  obtain ⟨p, hp, hab, hs'⟩ := hR.addArray hs hcd
  exact .ok hs' (.ofHeaps hp _ _) hab

end Regime

end Tao
