/-
  Two runs in lockstep.

  Two evaluators, or one evaluator on two machines, are compared by running them side by side.  A
  `Joint` is what is reached at one time: the two machines and the pairing of their handles.  A
  `Regime` says what the two have in common at all times (`Sound`), which halts both may end with
  (`admits`), and which halts of one of them end the comparison without any claim on the other
  (`excusesLeft`, `excusesRight`).

  `Steps` is the judgement about two computations: started from a joint, they end alike.  Where both
  succeed, a sound joint is reached, and whatever was PINNED at the start still is: alike values
  that both machines hold, and paired scopes that both machines will come back to.  In a regime in
  which what is paired stays paired (`lasting`), all alike values count as pinned.

  The rules below follow the combinators of `Eval`; none of them knows what `Sound` says.
-/
import Tao.Machine
import Tao.Proofs.Lockstep.Alike
import Tao.Proofs.Sequence

namespace Tao

/-- Two machines and the pairing of their handles. -/
structure Joint where
  pairing : Pairing
  left : Machine
  right : Machine

/-- The scopes that a collection starts from. -/
def Machine.roots (m : Machine) : List ScopeId := m.root :: m.scope :: m.frames

/-- Running inside of a scope, written out. -/
theorem Eval.within_apply {α : Type} (a : ScopeId) (x : Eval α) (m : Machine) :
    Eval.within a x m = match x { m with scope := a, frames := m.scope :: m.frames } with
      | .ok r m' => .ok r { m' with scope := m.scope, frames := m.frames }
      | .error e m' => .error e { m' with scope := m.scope, frames := m.frames } := rfl

/-- Running one call deeper, written out. -/
theorem Eval.deeper_apply {α : Type} (x : Eval α) (m : Machine) :
    Eval.deeper x m = match x { m with depth := m.depth + 1 } with
      | .ok r m' => .ok r { m' with depth := m.depth }
      | .error e m' => .error e { m' with depth := m.depth } := rfl

/-- Writing, written out: an empty text is always written, any other one if it fits. -/
theorem Eval.write_apply (text : String) (m : Machine) :
    Eval.write text m = if text.isEmpty then .ok () m
      else if m.sink.fits text then
        .ok () { m with sink := { m.sink with written := m.sink.written ++ text } }
      else .error (.failed .sinkFull) m := by
  unfold Eval.write Sink.write
  by_cases hempty : text.isEmpty = true
  · rw [if_pos hempty, if_pos hempty]
  · rw [if_neg hempty, if_neg hempty]
    by_cases hfits : m.sink.fits text = true
    · rw [if_pos hfits, if_pos hfits]
    · rw [if_neg hfits, if_neg hfits]

namespace Joint

/-- The joint with other held values. -/
def holding (j : Joint) (us vs : List Value) : Joint :=
  ⟨j.pairing, { j.left with held := us }, { j.right with held := vs }⟩

/-- The joint with other active scopes and other scopes to come back to. -/
def inScopes (j : Joint) (a : ScopeId) (as : List ScopeId) (b : ScopeId) (bs : List ScopeId) :
    Joint :=
  ⟨j.pairing, { j.left with scope := a, frames := as },
    { j.right with scope := b, frames := bs }⟩

/-- The joint at other depths of calls. -/
def atDepths (j : Joint) (c d : Nat) : Joint :=
  ⟨j.pairing, { j.left with depth := c }, { j.right with depth := d }⟩

/-- The joint after a stamp was given out. -/
def stamped (j : Joint) : Joint :=
  ⟨j.pairing, { j.left with stamps := j.left.stamps + 1 },
    { j.right with stamps := j.right.stamps + 1 }⟩

/-- The joint with other heaps and another pairing. -/
def withHeaps (j : Joint) (p : Pairing) (l r : Heap) : Joint :=
  ⟨p, { j.left with heap := l }, { j.right with heap := r }⟩

end Joint

/-- What two runs in lockstep have in common, and in which ways they may part. -/
structure Regime where
  /-- The shape of all code that is run. -/
  shape : Shape
  /-- Does what is paired stay paired, whether it is kept alive or not? -/
  lasting : Prop
  /-- What holds at all times. -/
  Sound : Joint → Prop
  /-- What holds of the machines once both runs have halted. -/
  AtFault : Machine → Machine → Prop
  /-- The halts that both runs may end with. -/
  admits : Halt RuntimeError → Prop
  /-- The halts of the left run after which nothing is claimed. -/
  excusesLeft : Halt RuntimeError → Prop
  /-- The halts of the right run after which nothing is claimed. -/
  excusesRight : Halt RuntimeError → Prop

namespace Regime

variable (R : Regime)

/-- Are two values alike at a joint? -/
def Alike (j : Joint) (u v : Value) : Prop := Value.Alike R.shape j.pairing u v

/-- Alike values that stay so. -/
structure Pinned (j : Joint) (u v : Value) : Prop where
  alike : R.Alike j u v
  kept : R.lasting ∨ u ∈ j.left.held ∧ v ∈ j.right.held

/-- Paired scopes that stay so. -/
structure PinnedScope (j : Joint) (a b : ScopeId) : Prop where
  paired : j.pairing.scope a b
  kept : R.lasting ∨ a ∈ j.left.roots ∧ b ∈ j.right.roots

/-- What is known of a later joint.  If the way there is `exact`, the held values are the same. -/
structure Leads (exact : Bool) (base now : Joint) : Prop where
  roots : now.left.roots = base.left.roots ∧ now.right.roots = base.right.roots
  pinned : ∀ u v, R.Pinned base u v → R.Pinned now u v
  pinnedScope : ∀ a b, R.PinnedScope base a b → R.PinnedScope now a b
  held : exact = true → now.left.held = base.left.held ∧ now.right.held = base.right.held

/-- How two computations, started at `base`, may end. -/
inductive Ends {α β : Type} (exact : Bool) (base : Joint) (post : Joint → α → β → Prop) :
    EStateM.Result (Halt RuntimeError) Machine α →
    EStateM.Result (Halt RuntimeError) Machine β → Prop where
  | ok {now : Joint} {a : α} {b : β} (sound : R.Sound now) (leads : R.Leads exact base now)
    (holds : post now a b) : Ends exact base post (.ok a now.left) (.ok b now.right)
  | error {halt : Halt RuntimeError} {m m' : Machine} (admitted : R.admits halt)
    (fault : R.AtFault m m') : Ends exact base post (.error halt m) (.error halt m')
  | left {halt : Halt RuntimeError} {m : Machine}
    {y : EStateM.Result (Halt RuntimeError) Machine β} (excused : R.excusesLeft halt) :
    Ends exact base post (.error halt m) y
  | right {halt : Halt RuntimeError} {m : Machine}
    {x : EStateM.Result (Halt RuntimeError) Machine α} (excused : R.excusesRight halt) :
    Ends exact base post x (.error halt m)

/-- From a joint on, two computations are in lockstep. -/
def Steps {α β : Type} (exact : Bool) (j : Joint) (x : Eval α) (y : Eval β)
    (post : Joint → α → β → Prop) : Prop :=
  R.Ends exact j post (x j.left) (y j.right)

/-- How two computations on heaps alone may end. -/
inductive Reads {α β : Type} (post : α → β → Prop) :
    Except RuntimeError α → Except RuntimeError β → Prop where
  | ok {a : α} {b : β} (holds : post a b) : Reads post (.ok a) (.ok b)
  | error {e : RuntimeError} (admitted : R.admits (.failed e)) : Reads post (.error e) (.error e)
  | left {e : RuntimeError} {y : Except RuntimeError β} (excused : R.excusesLeft (.failed e)) :
    Reads post (.error e) y
  | right {e : RuntimeError} {x : Except RuntimeError α} (excused : R.excusesRight (.failed e)) :
    Reads post x (.error e)

end Regime

namespace Regime

variable {R : Regime} {α β γ δ σ τ : Type} {exact : Bool} {base j now next : Joint}

/-! ## Ways from joint to joint -/

/-- Nothing has happened on the way from a joint to itself. -/
theorem Leads.refl : R.Leads exact j j :=
  ⟨⟨rfl, rfl⟩, fun _ _ h => h, fun _ _ h => h, fun _ => ⟨rfl, rfl⟩⟩

/-- Ways are put together. -/
theorem Leads.trans (h : R.Leads exact base now) (h' : R.Leads exact now next) :
    R.Leads exact base next where
  roots := ⟨h'.roots.1.trans h.roots.1, h'.roots.2.trans h.roots.2⟩
  pinned u v huv := h'.pinned u v (h.pinned u v huv)
  pinnedScope a b hab := h'.pinnedScope a b (h.pinnedScope a b hab)
  held hexact := ⟨(h'.held hexact).1.trans (h.held hexact).1,
    (h'.held hexact).2.trans (h.held hexact).2⟩

/-- An exact way is also a way. -/
theorem Leads.loosen (h : R.Leads true base now) : R.Leads exact base now :=
  ⟨h.roots, h.pinned, h.pinnedScope, fun _ => h.held rfl⟩

/-- A way on which only heaps change, and whatever was paired still is. -/
theorem Leads.ofHeaps {p : Pairing} (hp : j.pairing.Within p) (l r : Heap) :
    R.Leads exact j (j.withHeaps p l r) :=
  ⟨⟨rfl, rfl⟩, fun _ _ h => ⟨h.alike.mono hp, h.kept⟩,
    fun a b h => ⟨hp.scope a b h.paired, h.kept⟩, fun _ => ⟨rfl, rfl⟩⟩

/-- Where pairs last, being alike is enough to be pinned. -/
theorem Pinned.ofLasting {u v : Value} (hlasting : R.lasting) (h : R.Alike j u v) :
    R.Pinned j u v :=
  ⟨h, .inl hlasting⟩

/-- What is pinned is alike. -/
theorem Pinned.alikes {us vs : List Value} (h : List.Forall₂ (R.Pinned j) us vs) :
    List.Forall₂ (R.Alike j) us vs :=
  h.imp fun _ _ huv => huv.alike

/-- What was pinned at the start still is. -/
theorem Leads.pinnedList (h : R.Leads exact base now) {us vs : List Value}
    (huvs : List.Forall₂ (R.Pinned base) us vs) : List.Forall₂ (R.Pinned now) us vs :=
  huvs.imp h.pinned

/-! ## Consequences -/

/-- What is claimed of the end may be weakened, by all that is known at the joint reached. -/
theorem Ends.imp {post post' : Joint → α → β → Prop}
    {x : EStateM.Result (Halt RuntimeError) Machine α}
    {y : EStateM.Result (Halt RuntimeError) Machine β} (h : R.Ends exact j post x y)
    (hpost : ∀ now a b, R.Sound now → R.Leads exact j now → post now a b → post' now a b) :
    R.Ends exact j post' x y := by
  cases h with
  | ok sound leads holds => exact .ok sound leads (hpost _ _ _ sound leads holds)
  | error admitted fault => exact .error admitted fault
  | left excused => exact .left excused
  | right excused => exact .right excused

/-- An end seen from a joint is one seen from any earlier joint. -/
theorem Ends.rebase {post : Joint → α → β → Prop}
    {x : EStateM.Result (Halt RuntimeError) Machine α}
    {y : EStateM.Result (Halt RuntimeError) Machine β} (hleads : R.Leads exact base j)
    (h : R.Ends exact j post x y) : R.Ends exact base post x y := by
  cases h with
  | ok sound leads holds => exact .ok sound (hleads.trans leads) holds
  | error admitted fault => exact .error admitted fault
  | left excused => exact .left excused
  | right excused => exact .right excused

/-- Computations in lockstep stay so when less is claimed of the end. -/
theorem Steps.imp {x : Eval α} {y : Eval β} {post post' : Joint → α → β → Prop}
    (h : R.Steps exact j x y post)
    (hpost : ∀ now a b, R.Sound now → R.Leads exact j now → post now a b → post' now a b) :
    R.Steps exact j x y post' :=
  Ends.imp h hpost

/-- The same without a look at the joint reached. -/
theorem Steps.weaken {x : Eval α} {y : Eval β} {post post' : Joint → α → β → Prop}
    (h : R.Steps exact j x y post) (hpost : ∀ now a b, post now a b → post' now a b) :
    R.Steps exact j x y post' :=
  h.imp fun now a b _ _ => hpost now a b

/-- Computations that hold what they held are in lockstep also where more may be held. -/
theorem Steps.loosen {x : Eval α} {y : Eval β} {post : Joint → α → β → Prop}
    (h : R.Steps true j x y post) : R.Steps exact j x y post := by
  unfold Steps at h ⊢
  generalize x j.left = r at h
  generalize y j.right = s at h
  cases h with
  | ok sound leads holds => exact .ok sound leads.loosen holds
  | error admitted fault => exact .error admitted fault
  | left excused => exact .left excused
  | right excused => exact .right excused

/-! ## Sequences -/

/-- Giving results that are related. -/
theorem Steps.pure {post : Joint → α → β → Prop} (hs : R.Sound j) {a : α} {b : β}
    (h : post j a b) : R.Steps exact j (pure a) (pure b) post :=
  .ok hs .refl h

/-- A sequence is in lockstep if its first parts are, and if from every joint that they may reach
    the second parts are. -/
theorem Steps.bind {x : Eval α} {y : Eval β} {f : α → Eval γ} {g : β → Eval δ}
    {mid : Joint → α → β → Prop} {post : Joint → γ → δ → Prop} (hx : R.Steps exact j x y mid)
    (hf : ∀ now a b, R.Sound now → R.Leads exact j now → mid now a b →
      R.Steps exact now (f a) (g b) post) :
    R.Steps exact j (x >>= f) (y >>= g) post := by
  unfold Steps at hx ⊢
  rw [EStateM.bind_apply, EStateM.bind_apply]
  generalize x j.left = r at hx
  generalize y j.right = s at hx
  cases hx with
  | ok sound leads holds => exact .rebase leads (hf _ _ _ sound leads holds)
  | error admitted fault => exact .error admitted fault
  | left excused => exact .left excused
  | right excused => exact .right excused

/-- Two lists of computations, one after another, whose results stay related. -/
theorem Steps.mapM {ι : Type} {rel : Joint → α → β → Prop} {f : ι → Eval α} {g : ι → Eval β}
    {items : List ι} {fits : ι → Prop}
    (hrel : ∀ base now a b, R.Leads exact base now → rel base a b → rel now a b)
    (hstep : ∀ now item, fits item → R.Sound now → R.Steps exact now (f item) (g item) rel)
    (hfits : ∀ item ∈ items, fits item) (hs : R.Sound j) :
    R.Steps exact j (items.mapM f) (items.mapM g)
      fun now as bs => List.Forall₂ (rel now) as bs := by
  induction items generalizing j with
  | nil => exact .pure hs .nil
  | cons item rest ih =>
    rw [List.mapM_cons, List.mapM_cons]
    refine (hstep j item (hfits item List.mem_cons_self) hs).bind fun now a b hs _ hab => ?_
    have hrest := ih (fun other h => hfits other (List.mem_cons_of_mem item h)) hs
    refine hrest.bind fun next as bs hs hleads has => ?_
    exact .pure hs (.cons (hrel now next a b hleads hab) has)

/-! ## Loops -/

/-- Do two turns of a loop decide alike? -/
inductive TurnAlike (again : σ → τ → Prop) (done : α → β → Prop) : Turn σ α → Turn τ β → Prop where
  | again {s : σ} {t : τ} (h : again s t) : TurnAlike again done (.again s) (.again t)
  | done {a : α} {b : β} (h : done a b) : TurnAlike again done (.done a) (.done b)

/-- The bounds of two loops are the same, or running out of fuel is excused. -/
def SameBound (R : Regime) (n n' : Nat) : Prop :=
  n = n' ∧ R.admits .outOfFuel ∨ R.excusesLeft .outOfFuel ∧ R.excusesRight .outOfFuel

/-- Running out of fuel on both sides. -/
theorem Steps.outOfFuel {post : Joint → α → β → Prop} (hfault : R.AtFault j.left j.right)
    (h : R.admits .outOfFuel ∨ R.excusesLeft .outOfFuel) :
    R.Steps exact j (throw .outOfFuel) (throw .outOfFuel) post := by
  rcases h with h | h
  · exact .error h hfault
  · exact .left h

/-- Two loops keep an invariant if each two turns do.  Induction on the turns that are left. -/
theorem Steps.iterate {I : Joint → σ → τ → Prop} {post : Joint → α → β → Prop} {n n' : Nat}
    {f : σ → Eval (Turn σ α)} {g : τ → Eval (Turn τ β)} (hbound : R.SameBound n n')
    (hfault : ∀ now, R.Sound now → R.AtFault now.left now.right)
    (hturn : ∀ now s t, R.Sound now → R.Leads exact j now → I now s t →
      R.Steps exact now (f s) (g t) fun next => TurnAlike (I next) (post next))
    (hs : R.Sound j) {s : σ} {t : τ} (hinv : I j s t) :
    R.Steps exact j (Tao.iterate n f s) (Tao.iterate n' g t) post := by
  suffices hnow : ∀ now s t, R.Sound now → R.Leads exact j now → I now s t →
      R.Steps exact now (Tao.iterate n f s) (Tao.iterate n' g t) post from hnow j s t hs .refl hinv
  clear hs hinv
  induction n generalizing n' with
  | zero =>
    intro now s t hs _ _
    rcases hbound with ⟨rfl, hadmits⟩ | ⟨hleft, _⟩
    · exact .outOfFuel (hfault now hs) (.inl hadmits)
    · exact .left hleft
  | succ n ih =>
    intro now s t hs hleads hinv
    cases n' with
    | zero =>
      rcases hbound with ⟨h, _⟩ | ⟨_, hright⟩
      · cases h
      · exact .right hright
    | succ n' =>
      have hbound' : R.SameBound n n' := hbound.imp_left fun h => ⟨Nat.succ.inj h.1, h.2⟩
      refine (hturn now s t hs hleads hinv).bind fun next turn turn' hs hnext h => ?_
      cases h with
      | again h => exact ih hbound' next _ _ hs (hleads.trans hnext) h
      | done h => exact .pure hs h

/-! ## Reading -/

/-- What is claimed of what was read may be weakened. -/
theorem Reads.imp {x : Except RuntimeError α} {y : Except RuntimeError β}
    {post post' : α → β → Prop} (h : R.Reads post x y) (hpost : ∀ a b, post a b → post' a b) :
    R.Reads post' x y := by
  cases h with
  | ok holds => exact .ok (hpost _ _ holds)
  | error admitted => exact .error admitted
  | left excused => exact .left excused
  | right excused => exact .right excused

/-- What was read on the left. -/
theorem Reads.withLeft {x : Except RuntimeError α} {y : Except RuntimeError β}
    {post : α → β → Prop} (h : R.Reads post x y) :
    R.Reads (fun a b => x = .ok a ∧ post a b) x y := by
  cases h with
  | ok holds => exact .ok ⟨rfl, holds⟩
  | error admitted => exact .error admitted
  | left excused => exact .left excused
  | right excused => exact .right excused

/-- Two readings, one after the other. -/
theorem Reads.bind {x : Except RuntimeError α} {y : Except RuntimeError β}
    {f : α → Except RuntimeError γ} {g : β → Except RuntimeError δ} {mid : α → β → Prop}
    {post : γ → δ → Prop} (hx : R.Reads mid x y)
    (hf : ∀ a b, mid a b → R.Reads post (f a) (g b)) : R.Reads post (x >>= f) (y >>= g) := by
  cases hx with
  | ok holds => exact hf _ _ holds
  | error admitted => exact .error admitted
  | left excused => exact .left excused
  | right excused => exact .right excused

/-- Computing further with what was read. -/
theorem Reads.map {x : Except RuntimeError α} {y : Except RuntimeError β} {f : α → γ} {g : β → δ}
    {Q : α → β → Prop} {P : γ → δ → Prop} (hx : R.Reads Q x y)
    (hf : ∀ a b, Q a b → P (f a) (g b)) :
    R.Reads P (do return f (← x)) (do return g (← y)) :=
  hx.bind fun a b h => .ok (hf a b h)

/-- Two lists of readings, one after another.  Induction on the related lists. -/
theorem Reads.mapM {ι κ : Type} {related : ι → κ → Prop} {rel : α → β → Prop}
    {f : ι → Except RuntimeError α} {g : κ → Except RuntimeError β} {is : List ι} {ks : List κ}
    (his : List.Forall₂ related is ks)
    (hstep : ∀ i k, related i k → R.Reads rel (f i) (g k)) :
    R.Reads (List.Forall₂ rel) (is.mapM f) (ks.mapM g) := by
  induction his with
  | nil => exact .ok .nil
  | cons hik _ ih =>
    rw [List.mapM_cons, List.mapM_cons]
    refine (hstep _ _ hik).bind fun a b hab => ?_
    refine ih.bind fun as bs has => ?_
    exact .ok (.cons hab has)

/-- If all readings are the same on both sides, so are the lists. -/
theorem Reads.mapM_eq {ι κ : Type} {related : ι → κ → Prop} {f : ι → Except RuntimeError α}
    {g : κ → Except RuntimeError α} {is : List ι} {ks : List κ}
    (his : List.Forall₂ related is ks) (hstep : ∀ i k, related i k → R.Reads Eq (f i) (g k)) :
    R.Reads Eq (is.mapM f) (ks.mapM g) := by
  refine (Reads.mapM his hstep).imp fun as bs h => ?_
  rwa [List.forall₂_eq_eq_eq] at h

/-- Reading leaves the joint as it is. -/
theorem Steps.read {f : Heap → Except RuntimeError α} {g : Heap → Except RuntimeError β}
    {post : α → β → Prop} (hs : R.Sound j) (hfault : R.AtFault j.left j.right)
    (h : R.Reads post (f j.left.heap) (g j.right.heap)) :
    R.Steps exact j (Eval.read f) (Eval.read g) fun now a b => now = j ∧ post a b := by
  show R.Ends exact j _ (Eval.read f j.left) (Eval.read g j.right)
  unfold Eval.read
  generalize f j.left.heap = r at h
  generalize g j.right.heap = s at h
  cases h with
  | ok holds => exact .ok hs .refl ⟨rfl, holds⟩
  | error admitted => exact .error admitted hfault
  | left excused => exact .left excused
  | right excused => exact .right excused

end Regime

end Tao
