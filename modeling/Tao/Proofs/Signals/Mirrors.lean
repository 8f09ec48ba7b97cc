/-
  Signals implement structured control flow.

  A structured evaluator and one with signals MIRROR each other if they evaluate and call in
  lockstep, and if a statement raises, in the scope it is executed in, the completion that it has in
  the structured evaluator.  Then so do the next levels above them: one lemma for each construct, as
  for runs in lockstep.

  In between, every scope is without signals: whoever starts a block takes down what was raised
  before anything else is done.
-/
import Tao.Proofs.Signals.Raises

namespace Tao

open Diagonal (quiet)

/-- May a statement complete in this way?  It breaks only if it holds a `break` that may leave it,
    and definitions always complete normally. -/
def Statement.Allows (s : Statement) : Completion → Prop
  | .normal => True
  | .broke => s.Breaks
  | .returned _ => ¬ s.IsDefinition

/-- May statements, one after another, complete in this way? -/
def Statement.AnyAllows (body : List Statement) : Completion → Prop
  | .broke => AnyBreaks body
  | .normal | .returned _ => True

/-- May a loop or a choice complete in this way?  A `break` goes no further. -/
def Completion.Ended : Completion → Prop
  | .broke => False
  | .normal | .returned _ => True

/-- After a definition all goes on. -/
theorem Statement.eq_normal_of_allows {s : Statement} {c : Completion} (hs : s.IsDefinition)
    (h : s.Allows c) : c = .normal := by
  cases c with
  | normal => rfl
  | broke => exact absurd h (not_breaks_of_isDefinition hs)
  | returned value => exact absurd hs h

/-- What is no definition may return, and breaks if that is allowed. -/
theorem Statement.allows_of {s : Statement} {c : Completion} (hs : ¬ s.IsDefinition)
    (hbroke : c = .broke → s.Breaks) : s.Allows c := by
  cases c with
  | normal => trivial
  | broke => exact hbroke rfl
  | returned value => exact hs

/-- A loop has ended the breaks that belong to it. -/
theorem Completion.Ended.ne_broke {c : Completion} (h : c.Ended) : c ≠ .broke := by
  rintro rfl
  exact h

namespace Signals

/-- The completion that a run without signals gives is the one that the other raises. -/
structure Tells (allowed : Completion → Prop) (heap : Heap) (c : Completion) (_u : Unit)
    (raised : Completion) : Prop where
  raised : raised = c
  allowed : allowed c
  tidy : ∀ value, c = .returned value → Value.Alike .tidy (quiet.pairing heap) value value

/-- A structured evaluator and one with signals. -/
structure Mirrors (k : Structured) (k' : Evaluator) : Prop where
  matched : regime.Matched k.forget k'
  pause : ∀ {m}, quiet.Holds m →
    regime.Steps true (quiet.joint m) k.pause k'.pause fun _ _ _ => True
  execute : ∀ {m s}, quiet.Holds m → s.Everywhere .tidy →
    Raises true m.scope m (Tells s.Allows) (k.execute s m) (k'.execute s m)

variable {γ δ : Type} {k : Structured} {k' : Evaluator} {m : Machine} {exact : Bool}
  {t child outer loop : ScopeId} {held : List Value} {body : List Statement}
  {P : Completion → Prop} {Q : Heap → γ → δ → Completion → Prop}

/-- A normal completion tells nothing. -/
theorem tells_normal {allowed : Completion → Prop} {heap : Heap} (h : allowed .normal) :
    Tells allowed heap .normal () .normal :=
  ⟨rfl, h, nofun⟩

/-- A return tells its value. -/
theorem tells_returned {allowed : Completion → Prop} {heap : Heap} {value : Value}
    (h : allowed (.returned value))
    (hvalue : Value.Alike .tidy (quiet.pairing heap) value value) :
    Tells allowed heap (.returned value) () (.returned value) := by
  refine ⟨rfl, h, fun v hv => ?_⟩
  cases hv
  exact hvalue

theorem Tells.imp {allowed allowed' : Completion → Prop} {heap : Heap} {c raised : Completion}
    {u : Unit} (h : Tells allowed heap c u raised) (himp : ∀ c, allowed c → allowed' c) :
    Tells allowed' heap c u raised :=
  ⟨h.raised, himp c h.allowed, h.tidy⟩

/-! ## Blocks -/

/-- A new scope without signals keeps the machine quiet. -/
theorem steps_addScope (h : quiet.Holds m) {s : Scope}
    (hs : Scope.Alike .tidy (quiet.pairing m.heap) s s) (hsignals : s.signalled = false) :
    regime.Steps exact (quiet.joint m) (Eval.make (·.addScope s)) (Eval.make (·.addScope s))
      fun now a b => a = b ∧ now.left.heap.Resolves (.scope a) := by
  have hheap := h.toStores.addScope lawful_quiet hs hsignals
  have hreached : Reached exact m { m with heap := (m.heap.addScope s).1 } :=
    ⟨h.withHeap hheap fun _ hnode => (Heap.resolves_addScope h.wellFormed s).2 (.inr hnode), rfl,
      fun _ => rfl⟩
  exact .ok (sound_of_holds hreached.holds) hreached.leads
    ⟨rfl, (Heap.resolves_addScope h.wellFormed s).2 (.inl rfl)⟩

theorem steps_newScope (h : quiet.Holds m) (parent : ScopeId) :
    regime.Steps exact (quiet.joint m) (Eval.newScope parent) (Eval.newScope parent)
      fun now a b => a = b ∧ now.left.heap.Resolves (.scope a) :=
  steps_addScope h (Scope.alike_inside ⟨rfl, .inl trivial⟩) rfl

/-- Statements one after another stop at the first one that raises a signal. -/
theorem Mirrors.runAll (h : Mirrors k k') (hbody : Statement.AllEverywhere .tidy body)
    (hm : quiet.Holds m) (hscope : m.scope = child) :
    Raises true child m (Tells (Statement.AnyAllows body)) (k.runAll body m)
      (k'.runAll child body m) := by
  induction body generalizing m with
  | nil => exact .normal hm (tells_normal trivial)
  | cons s rest ih =>
    subst hscope
    refine (h.execute hm hbody.1).bind fun m' c _ raised hreached ⟨hraised, hallowed, htidy⟩ => ?_
    subst hraised
    obtain ⟨scope, hget⟩ := exists_get?_of_mem hreached.holds (hreached.mem (scope_mem_roots m))
    rw [EStateM.bind_apply, Eval.signalled_raiseAt hget raised]
    cases raised with
    | normal =>
      rw [Machine.raiseAt_normal (quietAt_of_holds hreached.holds _)]
      refine Raises.after (h.pause hreached.holds) fun m'' _ _ hpaused _ => ?_
      have hrest := ih hbody.2 hpaused.holds (hpaused.scope_eq.trans hreached.scope_eq)
      refine hrest.imp fun _ c _ _ _ htells => htells.imp fun c hc => ?_
      cases c with
      | broke => exact .inr hc
      | normal | returned _ => trivial
    | broke => exact .ok (.refl hreached.holds) ⟨rfl, .inl hallowed, htidy⟩
    | returned value => exact .ok (.refl hreached.holds) ⟨rfl, trivial, htidy⟩

/-- A block raises in its own scope what its statements do. -/
theorem Mirrors.runBlock (h : Mirrors k k') (hbody : Statement.AllEverywhere .tidy body)
    (hm : quiet.Holds m) (hchild : m.heap.Resolves (.scope child)) :
    Raises true child m
      (fun heap c u raised => heap.Resolves (.scope child) ∧
        Tells (Statement.AnyAllows body) heap c u raised)
      (Eval.within child (k.runAll body) m) (k'.runBlock child body m) :=
  Raises.within (h.runAll hbody (holds_entered hm hchild) rfl)

theorem activeScope_bind (f : ScopeId → Eval γ) (m : Machine) :
    (Eval.activeScope >>= f) m = f m.scope m := rfl

theorem held_bind (f : List Value → Eval γ) (m : Machine) :
    (Eval.held >>= f) m = f m.held m := rfl

theorem Mirrors.bound_eq (h : Mirrors k k') : k.bound = k'.bound :=
  (h.matched.bound.resolve_right fun hexcused => hexcused.1).1

/-- A block in a new scope, whose signals are taken down and handled: what is done about the signals
    is what is done about the completion. -/
theorem Mirrors.nested (h : Mirrors k k') (hbody : Statement.AllEverywhere .tidy body)
    (hm : quiet.Holds m) {f : Completion → Eval γ} {g : ScopeId → Bool × Option Value → Eval δ}
    (hf : ∀ m' c, Reached true m m' → Tells (Statement.AnyAllows body) m'.heap c () c →
      Raises true t m' Q (f c m') (g m.scope c.signals m')) :
    Raises true t m Q ((k.runNested body >>= f) m)
      ((do
        let outer ← Eval.activeScope
        let child ← Eval.newScope outer
        k'.runBlock child body
        let signals ← Eval.store (Store.lowerSignals child)
        g outer signals) m) := by
  unfold Structured.runNested
  rw [bind_assoc, activeScope_bind, activeScope_bind, bind_assoc]
  refine Raises.after (steps_newScope hm m.scope) fun m₁ child _ h₁ ⟨hchild, hthere⟩ => ?_
  subst hchild
  refine (h.runBlock hbody h₁.holds hthere).bind fun m₂ c _ raised h₂ ⟨hthere, htells⟩ => ?_
  obtain rfl := htells.raised
  rw [lowerSignals_bind h₂.holds hthere]
  exact hf m₂ raised (h₁.trans h₂) htells

/-- A nested block hands its completion on to the scope outside. -/
theorem Mirrors.runNested (h : Mirrors k k') (hbody : Statement.AllEverywhere .tidy body)
    (hm : quiet.Holds m) :
    Raises true m.scope m (Tells (Statement.AnyAllows body)) (k.runNested body m)
      (k'.runNested body m) := by
  rw [← bind_pure (k.runNested body)]
  refine h.nested hbody hm fun m' c hreached htells => ?_
  have hmem := hreached.mem (scope_mem_roots m)
  cases c with
  | normal => exact .normal hreached.holds htells
  | broke => exact .setBroke hreached.holds hmem htells
  | returned value => exact .setReturned hreached.holds hmem htells

/-! ## Loops -/

/-- A definition completes normally, so the runs stay in lockstep. -/
theorem Mirrors.executeDefinition (h : Mirrors k k') {s : Statement}
    (hs : s.Everywhere .tidy) (hdefinition : s.IsDefinition) (hm : quiet.Holds m) :
    regime.Steps true (quiet.joint m) (k.forget.execute s) (k'.execute s) fun _ _ _ => True := by
  have hexecute : regime.Steps true (quiet.joint m) (k.execute s >>= fun _ => pure ())
      (k'.execute s >>= fun _ => pure ()) fun _ _ _ => True := by
    refine Raises.steps (h.execute hm hs) fun m' c _ raised hreached ⟨hraised, hallowed, _⟩ => ?_
    subst hraised
    obtain rfl := Statement.eq_normal_of_allows hdefinition hallowed
    rw [Machine.raiseAt_normal (quietAt_of_holds hreached.holds _)]
    exact .ok (sound_of_holds hreached.holds) .refl trivial
  have hright : (k'.execute s >>= fun _ => pure ()) = k'.execute s := bind_pure _
  rwa [hright] at hexecute

/-- One turn: a break ends the loop, a return goes further, anything else goes on. -/
theorem Mirrors.loopTurn (h : Mirrors k k') {test increment : Option Expression}
    (htest : Expression.Everywhere? .tidy test)
    (hincrement : Expression.Everywhere? .tidy increment)
    (hbody : Statement.AllEverywhere .tidy body) (hm : quiet.Holds m) (houter : outer ∈ m.roots)
    (hheld : m.held = held) :
    Raises true outer m (TurnEnds (Tells Completion.Ended))
      (k.loopTurn loop held test increment body m)
      (k'.loopTurn outer loop held test increment body m) := by
  refine Raises.after (h.matched.passes lawful (sound_of_holds hm) htest ⟨hheld, hheld⟩)
    fun m₁ x y h₁ hxy => ?_
  subst hxy
  cases x with
  | false => exact .normal h₁.holds (.done (tells_normal trivial))
  | true =>
    refine Raises.after (steps_newScope h₁.holds loop) fun m₂ child _ h₂ ⟨hchild, hthere⟩ => ?_
    subst hchild
    refine (h.runBlock hbody h₂.holds hthere).bind fun m₃ c _ raised h₃ ⟨hthere, htells⟩ => ?_
    obtain rfl := htells.raised
    -- what the body came to is raised on its own scope, where the turn lowers it again
    rw [lowerSignals_bind h₃.holds hthere]
    have h₀ := (h₁.trans h₂).trans h₃
    cases raised with
    | returned value =>
      -- a value is handed on to the scope around the loop
      refine (Raises.setReturned h₃.holds (h₀.mem houter) (P := fun heap turn _ raised =>
        TurnEnds (Tells Completion.Ended) heap turn (.done ()) raised) (.done ?_)).bindRight
          fun m' _ _ _ h₄ hend => .ok (.refl h₄.holds) hend
      exact tells_returned trivial (htells.tidy value rfl)
    | broke => exact .normal h₃.holds (.done (tells_normal trivial))
    | normal =>
      have hpause : ∀ m', quiet.Holds m' → Raises true outer m' (TurnEnds (Tells Completion.Ended))
          ((do k.pause; return Turn.again ()) m') ((do k'.pause; return Turn.again ()) m') :=
        fun m' hm' => Raises.after (h.pause hm') fun _ _ _ hpaused _ => .normal hpaused.holds .again
      cases increment with
      | none => exact hpause m₃ h₃.holds
      | some increment =>
        obtain rfl : m₃.held = held := (h₀.held rfl).trans hheld
        exact Raises.bindSetHeld (h.matched.evaluate (sound_of_holds h₃.holds) hincrement)
          fun m' hreached => hpause m' hreached.holds

/-- A whole loop, by induction on its turns. -/
theorem Mirrors.runLoop (h : Mirrors k k') {init : Option Statement}
    {test increment : Option Expression}
    (hloop : (Statement.loop init test increment body).Everywhere .tidy) (hm : quiet.Holds m) :
    Raises true m.scope m (Tells Completion.Ended) (k.runLoop init test increment body m)
      (k'.runLoop init test increment body m) := by
  obtain ⟨hdefinition, hinit, htest, hincrement, hbody⟩ := hloop
  unfold Structured.runLoop Evaluator.runLoop
  rw [activeScope_bind, activeScope_bind]
  refine Raises.after (steps_newScope hm m.scope) fun m₁ loop _ h₁ ⟨hloop, hthere⟩ => ?_
  subst hloop
  refine Raises.imp (Raises.within ?_) fun _ _ _ _ _ htells => htells.2
  have h₂ := holds_entered h₁.holds hthere
  have houter : m.scope ∈
      ({ m₁ with scope := loop, frames := m₁.scope :: m₁.frames } : Machine).roots :=
    Regime.mem_roots_entered (h₁.mem (scope_mem_roots m))
  -- of the machine inside of the loop it only matters that it holds, and that the scope around
  -- the loop is among its roots
  generalize ({ m₁ with scope := loop, frames := m₁.scope :: m₁.frames } : Machine) = m₂
    at h₂ houter
  have hturns : ∀ m₃, Reached true m₂ m₃ → Raises true m.scope m₃ (Tells Completion.Ended)
      ((do
        let held ← Eval.held
        iterate k.bound (fun _ => k.loopTurn loop held test increment body) ()) m₃)
      ((do
        let held ← Eval.held
        iterate k'.bound (fun _ => k'.loopTurn m.scope loop held test increment body) ()) m₃) := by
    intro m₃ h₃
    rw [held_bind, held_bind, h.bound_eq]
    exact Raises.iterate (fun m₄ h₄ => h.loopTurn htest hincrement hbody h₄.holds
      (h₄.mem (h₃.mem houter)) (h₄.held rfl)) h₃.holds
  cases init with
  | none => exact hturns m₂ (.refl h₂)
  | some init =>
    exact Raises.after (h.executeDefinition hinit hdefinition h₂) fun m₃ _ _ h₃ _ => hturns m₃ h₃

/-! ## Choices -/

/-- A choice ends a break in the group that was chosen. -/
theorem Mirrors.runChoice (h : Mirrors k k') {subject : Expression} {groups : List CaseGroup}
    {otherwise : Option (List Statement)}
    (hchoice : (Statement.choose subject groups otherwise).Everywhere .tidy) (hm : quiet.Holds m) :
    Raises false m.scope m (Tells Completion.Ended) (k.runChoice subject groups otherwise m)
      (k'.runChoice subject groups otherwise m) := by
  obtain ⟨-, hsubject, hgroups, hotherwise⟩ := hchoice
  refine Raises.after (h.matched.evaluate (sound_of_holds hm) hsubject) fun m₁ u v h₁ huv => ?_
  refine Raises.after (h.matched.chosenGroup lawful hgroups (sound_of_holds h₁.holds) huv)
    fun m₂ chosen _ h₂ ⟨hchosen, hshape⟩ => ?_
  subst hchosen
  have hbody : Statement.AllEverywhere? .tidy (chosen.or otherwise) := by
    cases chosen with
    | none => exact hotherwise
    | some body => exact hshape
  have hscope := (h₁.trans h₂).scope_eq
  cases hor : chosen.or otherwise with
  | none => exact .normal h₂.holds (tells_normal trivial)
  | some body =>
    rw [hor] at hbody
    rw [← hscope]
    refine Raises.loosen (h.nested hbody h₂.holds fun m₃ c h₃ htells => ?_)
    cases c with
    | normal | broke => exact .normal h₃.holds (tells_normal trivial)
    | returned value =>
      exact .setReturned h₃.holds (h₃.mem (scope_mem_roots m₂))
        (tells_returned trivial (htells.tidy value rfl))

/-! ## All statements -/

/-- The value of an expression that may be missing. -/
theorem Mirrors.evaluate? (h : Mirrors k k') {e : Option Expression}
    (he : Expression.Everywhere? .tidy e) (hm : quiet.Holds m) {f : Value → Eval γ}
    {g : Value → Eval δ}
    (hfg : ∀ m' v, Reached false m m' → Value.Alike .tidy (quiet.pairing m'.heap) v v →
      Raises false t m' Q (f v m') (g v m')) :
    Raises false t m Q
      ((match e with
        | some e => k.evaluate e >>= f
        | none => f .nil) m)
      ((match e with
        | some e => k'.evaluate e >>= g
        | none => g .nil) m) := by
  cases e with
  | none => exact hfg m .nil (.refl hm) .nil
  | some e =>
    refine Raises.after (h.matched.evaluate (sound_of_holds hm) he) fun m' u v hreached huv => ?_
    obtain rfl := Diagonal.eq_of_alike (D := quiet) huv.alike
    exact hfg m' u hreached huv.alike

/-- The next levels of a structured evaluator and one with signals. -/
theorem Mirrors.perform (h : Mirrors k k') {s : Statement} (hs : s.Everywhere .tidy)
    (hm : quiet.Holds m) :
    Raises false m.scope m (Tells s.Allows) (k.perform s m) (k'.perform s m) := by
  cases s with
  | empty => exact .normal hm (tells_normal trivial)
  | define name initializer =>
    refine h.evaluate? hs.2 hm (f := fun value => do
      let scope ← Eval.activeScope
      Eval.store (Store.define scope name value)
      return Completion.normal) (g := fun value => do
      let scope ← Eval.activeScope
      Eval.store (Store.define scope name value)) fun m' v hreached hv => ?_
    rw [activeScope_bind, activeScope_bind]
    have hsound := sound_of_holds hreached.holds
    exact Raises.thenLeft (Regime.Steps.define lawful hsound (lawful.active hsound) name hv)
      (tells_normal trivial)
  | function code =>
    exact Raises.after (h.matched.evaluate (e := .function code) (sound_of_holds hm) hs.2)
      fun _ _ _ hreached _ => .normal hreached.holds (tells_normal trivial)
  | giveBack value =>
    refine h.evaluate? hs.2 hm (f := fun value => pure (Completion.returned value))
      (g := fun value => do
        let scope ← Eval.activeScope
        Eval.store (Store.setReturned scope value)) fun m' v hreached hv => ?_
    rw [activeScope_bind, ← hreached.scope_eq]
    exact .setReturned hreached.holds (scope_mem_roots m') (tells_returned id hv)
  | block body =>
    -- a block ends with a break only if one of its statements may
    refine Raises.loosen ((h.runNested hs.2 hm).imp fun _ _ _ _ _ htells => htells.imp ?_)
    rintro c hallowed
    refine Statement.allows_of id fun hc => ?_
    subst hc
    exact hallowed
  | expression value =>
    exact Raises.after (h.matched.evaluate (sound_of_holds hm) hs.2)
      fun _ _ _ hreached _ => .normal hreached.holds (tells_normal trivial)
  | loop init test increment body =>
    -- a break in the body ends the loop, and goes no further
    exact Raises.loosen ((h.runLoop hs hm).imp fun _ _ _ _ _ htells =>
      htells.imp fun _ hended => Statement.allows_of id fun hc => absurd hc hended.ne_broke)
  | leave => exact .setBroke hm (scope_mem_roots m) ⟨rfl, trivial, nofun⟩
  | branch condition thenBody otherwise =>
    refine Raises.after (h.matched.evaluate (sound_of_holds hm) hs.2.1) fun m₁ u v h₁ huv => ?_
    refine Raises.after (Regime.Steps.truthy lawful (sound_of_holds h₁.holds) huv.alike)
      fun m₂ x y h₂ ⟨_, hxy⟩ => ?_
    subst hxy
    rw [← (h₁.trans h₂).scope_eq]
    cases x with
    | true =>
      refine Raises.loosen ((h.runNested hs.2.2.1 h₂.holds).imp fun _ _ _ _ _ htells =>
        htells.imp fun c hallowed => Statement.allows_of id fun hc => ?_)
      subst hc
      exact .inl hallowed
    | false =>
      cases otherwise with
      | none => exact .normal h₂.holds (tells_normal trivial)
      | some other =>
        refine Raises.loosen ((h.execute h₂.holds hs.2.2.2).imp fun _ _ _ _ _ htells =>
          htells.imp fun c hallowed => Statement.allows_of id fun hc => ?_)
        subst hc
        exact .inr hallowed
  | choose subject groups otherwise =>
    exact (h.runChoice hs hm).imp fun _ _ _ _ _ htells =>
      htells.imp fun _ hended => Statement.allows_of id fun hc => absurd hc hended.ne_broke

end Signals

end Tao
