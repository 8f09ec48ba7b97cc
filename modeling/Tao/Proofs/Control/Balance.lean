/-
  Computations that give the control state back.

  The CONTROL STATE of a machine says where its run is: the active scope, the scopes to come back
  to, the number of calls under way.  Beside it stand the values held.  A computation is BALANCED
  if it ends with the control state that it began with, and with the values held at its beginning
  still there, maybe below others; whether it succeeds or halts, for whatever reason, makes no
  difference.  It is exactly balanced if it holds no others, either.

  Balance is judged relative to the machine at an earlier time, the BASE.  Then the parts of a
  sequence are judged one by one (`Balanced.bind`), and an early end is no case of its own.
-/
import Tao.Proofs.Evaluator.Watch

namespace Tao

/-- Where a run is, and what it never changes. -/
structure Control where
  scope : ScopeId
  root : ScopeId
  config : Config
  depth : Nat
  frames : List ScopeId

/-- The control state of a machine. -/
def Machine.control (m : Machine) : Control := ⟨m.scope, m.root, m.config, m.depth, m.frames⟩

/-- The machine is back at the control state of `base`, and holds what was held there; if it is
    `exact`, it holds nothing more. -/
structure Machine.Back (exact : Bool) (base m : Machine) : Prop where
  control : m.control = base.control
  held : base.held <:+ m.held
  exact : exact = true → m.held = base.held

namespace Eval

/-- The machine that a computation reaches, whether it succeeds or halts. -/
def reached {α : Type} (x : Eval α) (m : Machine) : Machine :=
  match x m with
  | .ok _ m => m
  | .error _ m => m

/-- What a computation gives or halts with, whatever machine it reaches. -/
def outcome {α : Type} (x : Eval α) (m : Machine) : Except (Halt RuntimeError) α :=
  match x m with
  | .ok a _ => .ok a
  | .error halt _ => .error halt

/-- A computation that succeeds reaches the machine that it ends with. -/
theorem reached_of_ok {α : Type} {x : Eval α} {m m' : Machine} {a : α} (h : x m = .ok a m') :
    x.reached m = m' := by
  unfold reached
  rw [h]

/-- So does one that halts. -/
theorem reached_of_error {α : Type} {x : Eval α} {m m' : Machine} {halt : Halt RuntimeError}
    (h : x m = .error halt m') : x.reached m = m' := by
  unfold reached
  rw [h]

/-- Outcome and machine reached are the whole result, where it is a success. -/
theorem apply_of_outcome_ok {α : Type} {x : Eval α} {m : Machine} {a : α}
    (h : x.outcome m = .ok a) : x m = .ok a (x.reached m) := by
  unfold outcome at h
  unfold reached
  cases hresult : x m with
  | ok a' m' =>
    rw [hresult] at h
    exact congrArg (EStateM.Result.ok · m') (Except.ok.inj h)
  | error halt m' =>
    rw [hresult] at h
    cases h

theorem apply_of_outcome_error {α : Type} {x : Eval α} {m : Machine} {halt : Halt RuntimeError}
    (h : x.outcome m = .error halt) : x m = .error halt (x.reached m) := by
  unfold outcome at h
  unfold reached
  cases hresult : x m with
  | ok a m' =>
    rw [hresult] at h
    cases h
  | error halt' m' =>
    rw [hresult] at h
    exact congrArg (EStateM.Result.error · m') (Except.error.inj h)

/-- A machine that is back at the control state of `base` is so again after `x`. -/
def Balanced {α : Type} (exact : Bool) (base : Machine) (x : Eval α) : Prop :=
  ∀ m, base.Back exact m → base.Back exact (x.reached m)

end Eval

open Machine (Back)

variable {α β γ : Type} {exact : Bool} {base m m' m'' : Machine} {x : Eval α} {f : α → Eval β}

namespace Machine

/-- Every machine is back at its own control state. -/
theorem Back.refl : Back exact m m := ⟨rfl, List.suffix_rfl, fun _ => rfl⟩

/-- Being back at a machine that was back is being back. -/
theorem Back.trans (h : Back exact m m') (h' : Back exact m' m'') : Back exact m m'' where
  control := h'.control.trans h.control
  held := h.held.trans h'.held
  exact hexact := (h'.exact hexact).trans (h.exact hexact)

/-- Nothing was done to the control state and the values held. -/
theorem Back.of_eq (hcontrol : m'.control = m.control) (hheld : m'.held = m.held) :
    Back exact m m' :=
  ⟨hcontrol, hheld ▸ List.suffix_rfl, fun _ => hheld⟩

theorem Back.scope_eq (h : Back exact m m') : m'.scope = m.scope := congrArg Control.scope h.control

theorem Back.depth_eq (h : Back exact m m') : m'.depth = m.depth := congrArg Control.depth h.control

theorem Back.frames_eq (h : Back exact m m') : m'.frames = m.frames :=
  congrArg Control.frames h.control

end Machine

namespace Eval

/-- A sequence reaches what its second part does, unless the first part halts. -/
theorem reached_bind (x : Eval α) (f : α → Eval β) (m : Machine) :
    (x >>= f).reached m = match x m with
      | .ok a m => (f a).reached m
      | .error _ m => m := by
  unfold reached
  show (match EStateM.bind x f m with | .ok _ m => m | .error _ m => m) = _
  unfold EStateM.bind
  cases x m <;> rfl

/-- Letting go changes the values held, and nothing else of what is reached. -/
theorem reached_lettingGo (x : Eval α) (m : Machine) :
    (lettingGo x).reached m = { x.reached m with held := m.held } := by
  unfold reached lettingGo
  dsimp only
  cases x m <;> rfl

/-- Coming back from a scope restores it and the frames, whatever the computation inside did. -/
theorem reached_within (scope : ScopeId) (x : Eval α) (m : Machine) :
    (within scope x).reached m =
      { x.reached { m with scope, frames := m.scope :: m.frames } with
        scope := m.scope, frames := m.frames } := by
  unfold reached within
  dsimp only
  cases x { m with scope, frames := m.scope :: m.frames } <;> rfl

/-- Coming back from a call restores the depth. -/
theorem reached_deeper (x : Eval α) (m : Machine) :
    (deeper x).reached m =
      { x.reached { m with depth := m.depth + 1 } with depth := m.depth } := by
  unfold reached deeper
  dsimp only
  cases x { m with depth := m.depth + 1 } <;> rfl

namespace Balanced

/-! ## Sequences -/

/-- Whatever leaves control state and values held alone is balanced. -/
theorem of_same (h : ∀ m, (x.reached m).control = m.control ∧ (x.reached m).held = m.held) :
    Balanced exact base x :=
  fun m hm => hm.trans (.of_eq (h m).1 (h m).2)

/-- What is balanced from wherever it begins is balanced relative to any earlier time. -/
theorem of_back (h : ∀ m, Back exact m (x.reached m)) : Balanced exact base x :=
  fun m hm => hm.trans (h m)

/-- In particular it is balanced relative to the machine that it begins with. -/
theorem back (h : ∀ base, Balanced exact base x) (m : Machine) : Back exact m (x.reached m) :=
  h m m .refl

theorem pure (a : α) : Balanced exact base (pure a : Eval α) := fun _ hm => hm

theorem throw (halt : Halt RuntimeError) : Balanced exact base (throw halt : Eval α) :=
  fun _ hm => hm

/-- A sequence is balanced if its parts are.  Where the first part halts, the machine is back
    already. -/
theorem bind (hx : Balanced exact base x) (hf : ∀ a, Balanced exact base (f a)) :
    Balanced exact base (x >>= f) := by
  intro m hm
  have hmid := hx m hm
  rw [reached_bind]
  unfold reached at hmid
  cases hresult : x m with
  | ok a m' =>
    rw [hresult] at hmid
    exact hf a m' hmid
  | error halt m' =>
    rw [hresult] at hmid
    exact hmid

/-- Computing further with the result is of no matter. -/
theorem bindPure (hx : Balanced exact base x) (g : α → β) :
    Balanced exact base (do return g (← x)) :=
  hx.bind fun _ => pure _

/-- Induction on the list, here and in the next two. -/
theorem mapM {ι : Type} {g : ι → Eval β} (items : List ι)
    (hg : ∀ item, Balanced exact base (g item)) : Balanced exact base (items.mapM g) := by
  induction items with
  | nil => exact pure _
  | cons item rest ih =>
    rw [List.mapM_cons]
    exact (hg item).bind fun _ => ih.bind fun _ => pure _

theorem foldlM {ι σ : Type} {g : σ → ι → Eval σ} (items : List ι) (start : σ)
    (hg : ∀ s item, Balanced exact base (g s item)) :
    Balanced exact base (items.foldlM g start) := by
  induction items generalizing start with
  | nil => exact pure _
  | cons item rest ih =>
    rw [List.foldlM_cons]
    exact (hg start item).bind fun next => ih next

theorem forM {ι : Type} {g : ι → Eval PUnit} (items : List ι)
    (hg : ∀ item, Balanced exact base (g item)) : Balanced exact base (items.forM g) := by
  induction items with
  | nil => exact pure _
  | cons item rest ih =>
    exact (hg item).bind fun _ => ih

/-- A loop is balanced if each turn is.  Induction on the turns that are left. -/
theorem iterate {σ : Type} {turn : σ → Eval (Turn σ β)} (n : Nat) (start : σ)
    (hturn : ∀ s, Balanced exact base (turn s)) :
    Balanced exact base (Tao.iterate n turn start) := by
  induction n generalizing start with
  | zero => exact throw _
  | succ n ih =>
    refine (hturn start).bind fun decision => ?_
    cases decision with
    | again next => exact ih next
    | done result => exact pure result

/-! ## Heap, sink and stamps -/

theorem read (g : Heap → Except RuntimeError α) : Balanced exact base (Eval.read g) := by
  refine of_same fun m => ?_
  unfold Eval.read reached
  dsimp only
  cases g m.heap <;> exact ⟨rfl, rfl⟩

theorem store (g : Store α) : Balanced exact base (Eval.store g) := by
  refine of_same fun m => ?_
  unfold Eval.store reached
  dsimp only
  cases g m.heap <;> exact ⟨rfl, rfl⟩

theorem make (g : Heap → Heap × α) : Balanced exact base (Eval.make g) :=
  of_same fun _ => ⟨rfl, rfl⟩

/-- A write that the sink refuses is no exception. -/
theorem write (text : String) : Balanced exact base (Eval.write text) := by
  refine of_same fun m => ?_
  unfold Eval.write reached
  dsimp only
  cases Sink.write text m.sink <;> exact ⟨rfl, rfl⟩

theorem activeScope : Balanced exact base Eval.activeScope := of_same fun _ => ⟨rfl, rfl⟩

theorem freshStamp : Balanced exact base Eval.freshStamp := of_same fun _ => ⟨rfl, rfl⟩

theorem fail (error : RuntimeError) : Balanced exact base (Tao.fail error : Eval α) := throw _

theorem truthy (value : Value) : Balanced exact base (Eval.truthy value) := read _

theorem newScope (parent : ScopeId) : Balanced exact base (Eval.newScope parent) := make _

/-- A collection changes heap and allowance only. -/
theorem collectWhen (due : Machine → Bool) : Balanced exact base (Eval.collectWhen due) := by
  refine of_same fun m => ?_
  unfold Eval.collectWhen reached
  dsimp only
  by_cases hdue : due m = true
  · rw [if_pos hdue]
    exact ⟨rfl, rfl⟩
  · rw [if_neg hdue]
    exact ⟨rfl, rfl⟩

/-! ## Values held -/

/-- Keeping a value is what makes a balance inexact. -/
theorem keep (value : Value) : Balanced false base (Eval.keep value) := fun m hm =>
  ⟨hm.control, hm.held.trans (List.suffix_cons value m.held), nofun⟩

/-- An expression that is kept leaves what was held beneath its value. -/
theorem kept {x : Eval Value} (hx : Balanced false base x) : Balanced false base (Eval.kept x) :=
  hx.bind fun value => (keep value).bind fun _ => pure value

/-- A mark that was set since the base: going back to it lets go of nothing held before. -/
theorem bindHeld {g : List Value → Eval β}
    (hg : ∀ held, base.held <:+ held → Balanced false base (g held)) :
    Balanced false base (Eval.held >>= g) :=
  fun m hm => hg m.held hm.held m hm

/-- Going back to values that include those held at the base. -/
theorem setHeld {held : List Value} (hheld : base.held <:+ held) :
    Balanced false base (Eval.setHeld held) :=
  fun _ hm => ⟨hm.control, hheld, nofun⟩

/-- Whatever the values are that `x` holds in the end, they are let go. -/
theorem lettingGo (hx : ∀ base, Balanced false base x) :
    Balanced exact base (Eval.lettingGo x) := by
  refine of_back fun m => ?_
  rw [reached_lettingGo]
  exact ⟨(back hx m).control, List.suffix_rfl, fun _ => rfl⟩

/-! ## Scopes and calls under way -/

/-- Whatever the scope, it is left again. -/
theorem within (hx : ∀ base, Balanced exact base x) (scope : ScopeId) :
    Balanced exact base (Eval.within scope x) := by
  refine of_back fun m => ?_
  have hback := back hx { m with scope, frames := m.scope :: m.frames }
  rw [reached_within]
  refine ⟨?_, hback.held, hback.exact⟩
  unfold Machine.control
  have hroot := congrArg Control.root hback.control
  have hconfig := congrArg Control.config hback.control
  have hdepth := hback.depth_eq
  simp only [Control.mk.injEq]
  exact ⟨trivial, hroot, hconfig, hdepth, trivial⟩

/-- Whatever the call, it is counted off again. -/
theorem deeper (hx : ∀ base, Balanced exact base x) : Balanced exact base (Eval.deeper x) := by
  refine of_back fun m => ?_
  have hback := back hx { m with depth := m.depth + 1 }
  rw [reached_deeper]
  refine ⟨?_, hback.held, hback.exact⟩
  unfold Machine.control
  have hscope := hback.scope_eq
  have hroot := congrArg Control.root hback.control
  have hconfig := congrArg Control.config hback.control
  have hframes := hback.frames_eq
  simp only [Control.mk.injEq]
  exact ⟨hscope, hroot, hconfig, trivial, hframes⟩

end Balanced

/-! ## Doing the same -/

/-- Two computations do the same on machines of a kind. -/
def SameOn (P : Machine → Prop) (x y : Eval α) : Prop := ∀ m, P m → x m = y m

/-- A machine of the kind is one also after `x`. -/
def Stays (P : Machine → Prop) (x : Eval α) : Prop := ∀ m, P m → P (x.reached m)

namespace SameOn

variable {P : Machine → Prop} {y : Eval α} {g : α → Eval β}

/-- A computation does the same as itself. -/
theorem refl : SameOn P x x := fun _ _ => rfl

/-- Sequences do the same if their parts do, and if the first part stays among the machines on which
    the second parts do. -/
theorem bind (hxy : SameOn P x y) (hx : Stays P x) (hfg : ∀ a, SameOn P (f a) (g a)) :
    SameOn P (x >>= f) (y >>= g) := by
  intro m hm
  have hstays := hx m hm
  have hsame := hxy m hm
  show EStateM.bind x f m = EStateM.bind y g m
  unfold EStateM.bind
  rw [← hsame]
  unfold reached at hstays
  cases hresult : x m with
  | ok a m' =>
    rw [hresult] at hstays
    exact hfg a m' hstays
  | error e m' => rfl

/-- Two loops do the same if each two turns do.  Induction on the turns that are left. -/
theorem iterate {σ : Type} {turn turn' : σ → Eval (Turn σ β)} (n : Nat) (start : σ)
    (hsame : ∀ s, SameOn P (turn s) (turn' s)) (hstays : ∀ s, Stays P (turn s)) :
    SameOn P (Tao.iterate n turn start) (Tao.iterate n turn' start) := by
  induction n generalizing start with
  | zero => exact refl
  | succ n ih =>
    refine (hsame start).bind (hstays start) fun decision => ?_
    cases decision with
    | again next => exact ih next
    | done result => exact refl

end SameOn

end Eval

end Tao
