/-
  A run without signals beside one with them.

  Both start on the same machine, on which no signal is up.  `Raises` says that they end alike: if
  they fail, then on the same machine, and if they succeed, then the machine of the one with signals
  is that of the other on which a completion is raised.  What the two give and what is raised are
  related by a `post`, which may speak of the heap.

  The rules follow the combinators of `Eval`, like those of `Regime.Steps`; wherever no completion
  is under way, the two runs are in the lockstep of the regime `quiet`.
-/
import Tao.Proofs.Lockstep.Diagonal
import Tao.Proofs.Signals.Breaks
import Tao.Proofs.Signals.Raise

namespace Tao

/-- Tidy code, scopes without signals, handles that may be stale. -/
def Diagonal.quiet : Diagonal where
  shape := .tidy
  lasting := True
  fit s := s.signalled = false
  admits _ := True
  excuses _ := False

namespace Signals

open Diagonal (quiet)

/-- The regime of one machine on which no signal is up. -/
abbrev regime : Regime := quiet.regime

theorem lawful_quiet : quiet.Lawful where
  admits _ := trivial
  admitsStale _ := trivial
  fitNew h := h
  fitBindings h := h

theorem lawful : regime.Lawful := lawful_quiet.regime

variable {α β γ δ : Type} {exact : Bool} {s t : ScopeId} {m m' m'' : Machine}

/-- A quiet machine is compared with itself. -/
theorem sound_of_holds (h : quiet.Holds m) : regime.Sound (quiet.joint m) :=
  Diagonal.sound_iff.2 ⟨m, rfl, h⟩

/-- No scope of it has a signal up. -/
theorem quietAt_of_holds (h : quiet.Holds m) (id : ScopeId) : m.QuietAt id :=
  fun _ hget => (h.scopes id _ hget).2

/-! ## Machines that are reached -/

/-- A later machine on which no signal is up. -/
structure Reached (exact : Bool) (m m' : Machine) : Prop where
  holds : quiet.Holds m'
  roots : m'.roots = m.roots
  held : exact = true → m'.held = m.held

theorem Reached.refl (h : quiet.Holds m) : Reached exact m m := ⟨h, rfl, fun _ => rfl⟩

theorem Reached.trans (h : Reached exact m m') (h' : Reached exact m' m'') :
    Reached exact m m'' :=
  ⟨h'.holds, h'.roots.trans h.roots, fun hexact => (h'.held hexact).trans (h.held hexact)⟩

/-- The active scope is the same again. -/
theorem Reached.scope_eq (h : Reached exact m m') : m'.scope = m.scope :=
  (List.cons.inj (List.cons.inj h.roots).2).1

/-- So are all others that are roots. -/
theorem Reached.mem (h : Reached exact m m') (hs : s ∈ m.roots) : s ∈ m'.roots :=
  h.roots ▸ hs

/-- What is alike stays alike, as handles may be stale. -/
theorem alike_later {heap heap' : Heap} {u v : Value}
    (h : Value.Alike .tidy (quiet.pairing heap) u v) :
    Value.Alike .tidy (quiet.pairing heap') u v :=
  Diagonal.alike_transfer (D := quiet) h fun _ _ _ => .inl trivial

/-- To reach a machine is to lead there in the regime. -/
theorem Reached.leads (h : Reached exact m m') :
    regime.Leads exact (quiet.joint m) (quiet.joint m') where
  roots := ⟨h.roots, h.roots⟩
  pinned _ _ huv := ⟨alike_later huv.alike, .inl trivial⟩
  pinnedScope _ _ hab := ⟨⟨hab.paired.1, .inl trivial⟩, .inl trivial⟩
  held hexact := ⟨h.held hexact, h.held hexact⟩

/-- The active scope is a root. -/
theorem scope_mem_roots (m : Machine) : m.scope ∈ m.roots :=
  List.mem_cons_of_mem _ List.mem_cons_self

/-! ## The judgement -/

/-- How a run without signals and one with them, both started at `m`, may end, where a completion
    is raised in the scope `s`. -/
inductive Raises (exact : Bool) (s : ScopeId) (m : Machine)
    (post : Heap → α → β → Completion → Prop) :
    EStateM.Result (Halt RuntimeError) Machine α →
    EStateM.Result (Halt RuntimeError) Machine β → Prop where
  | ok {m' : Machine} {a : α} {b : β} {c : Completion} (reached : Reached exact m m')
    (holds : post m'.heap a b c) : Raises exact s m post (.ok a m') (.ok b (m'.raiseAt s c))
  | error {halt : Halt RuntimeError} {m' : Machine} :
    Raises exact s m post (.error halt m') (.error halt m')

section Rules

variable {P : Heap → α → β → Completion → Prop} {Q : Heap → γ → δ → Completion → Prop}

/-- What was raised from a machine that was reached. -/
theorem Raises.rebase {r : EStateM.Result (Halt RuntimeError) Machine α}
    {r' : EStateM.Result (Halt RuntimeError) Machine β} (hreached : Reached exact m m')
    (h : Raises exact s m' P r r') : Raises exact s m P r r' := by
  cases h with
  | ok reached holds => exact .ok (hreached.trans reached) holds
  | error => exact .error

theorem Raises.imp {P' : Heap → α → β → Completion → Prop}
    {r : EStateM.Result (Halt RuntimeError) Machine α}
    {r' : EStateM.Result (Halt RuntimeError) Machine β} (h : Raises exact s m P r r')
    (hP : ∀ m' a b c, Reached exact m m' → P m'.heap a b c → P' m'.heap a b c) :
    Raises exact s m P' r r' := by
  cases h with
  | ok reached holds => exact .ok reached (hP _ _ _ _ reached holds)
  | error => exact .error

/-- What is known of the values held may be forgotten. -/
theorem Raises.loosen {r : EStateM.Result (Halt RuntimeError) Machine α}
    {r' : EStateM.Result (Halt RuntimeError) Machine β} (h : Raises true s m P r r') :
    Raises exact s m P r r' := by
  cases h with
  | ok reached holds => exact .ok ⟨reached.holds, reached.roots, fun _ => reached.held rfl⟩ holds
  | error => exact .error

/-- Both runs go on, the one with signals on the machine where the completion is raised. -/
theorem Raises.bind {x : Eval α} {y : Eval β} {f : α → Eval γ} {g : β → Eval δ}
    (hx : Raises exact s m P (x m) (y m))
    (hf : ∀ m' a b c, Reached exact m m' → P m'.heap a b c →
      Raises exact t m' Q (f a m') (g b (m'.raiseAt s c))) :
    Raises exact t m Q ((x >>= f) m) ((y >>= g) m) := by
  rw [EStateM.bind_apply, EStateM.bind_apply]
  generalize x m = r at hx
  generalize y m = r' at hx
  cases hx with
  | ok reached holds => exact .rebase reached (hf _ _ _ _ reached holds)
  | error => exact .error

/-- Only the run with signals goes on. -/
theorem Raises.bindRight {Q : Heap → α → δ → Completion → Prop} {x : Eval α} {y : Eval β}
    {g : β → Eval δ} (hx : Raises exact s m P (x m) (y m))
    (hf : ∀ m' a b c, Reached exact m m' → P m'.heap a b c →
      Raises exact t m' Q (.ok a m') (g b (m'.raiseAt s c))) :
    Raises exact t m Q (x m) ((y >>= g) m) := by
  have h := Raises.bind (f := pure) hx hf
  rwa [bind_pure] at h

/-- Nothing is raised. -/
theorem Raises.normal (h : quiet.Holds m) {a : α} {b : β} (hP : P m.heap a b .normal) :
    Raises exact s m P (.ok a m) (.ok b m) := by
  have hraised : Raises exact s m P (.ok a m) (.ok b (m.raiseAt s .normal)) := .ok (.refl h) hP
  rwa [Machine.raiseAt_normal (quietAt_of_holds h s)] at hraised

/-- From lockstep on. -/
theorem Raises.after {x : Eval α} {y : Eval β} {f : α → Eval γ} {g : β → Eval δ}
    {post : Joint → α → β → Prop} (hx : regime.Steps exact (quiet.joint m) x y post)
    (hf : ∀ m' a b, Reached exact m m' → post (quiet.joint m') a b →
      Raises exact t m' Q (f a m') (g b m')) :
    Raises exact t m Q ((x >>= f) m) ((y >>= g) m) := by
  rw [EStateM.bind_apply, EStateM.bind_apply]
  change regime.Ends exact (quiet.joint m) post (x m) (y m) at hx
  generalize x m = r at hx
  generalize y m = r' at hx
  cases hx with
  | ok sound leads holds =>
    obtain ⟨m', rfl, hm⟩ := Diagonal.sound_iff.1 sound
    have hreached : Reached exact m m' := ⟨hm, leads.roots.1, fun hexact => (leads.held hexact).1⟩
    exact .rebase hreached (hf m' _ _ hreached holds)
  | error admitted fault =>
    cases fault
    exact .error
  | left excused => exact excused.elim
  | right excused => exact excused.elim

/-- In lockstep, after which the run without signals gives something of its own. -/
theorem Raises.thenLeft {Q : Heap → γ → β → Completion → Prop} {x : Eval α} {y : Eval β}
    {post : Joint → α → β → Prop} (hx : regime.Steps exact (quiet.joint m) x y post) {c : γ}
    (hQ : ∀ {heap b}, Q heap c b .normal) :
    Raises exact s m Q ((do let _ ← x; return c) m) (y m) := by
  have h := Raises.after (g := pure) (Q := Q) (t := s) (f := fun _ => pure c) hx
    fun m' a b hreached _ => .normal hreached.holds hQ
  rwa [bind_pure] at h

/-- From lockstep on, once the values kept alive are those of the start again. -/
theorem Raises.bindSetHeld {x : Eval α} {y : Eval β} {f : Unit → Eval γ} {g : Unit → Eval δ}
    {post : Joint → α → β → Prop} (hx : regime.Steps false (quiet.joint m) x y post)
    (hf : ∀ m', Reached true m m' → Raises true t m' Q (f () m') (g () m')) :
    Raises true t m Q ((x >>= fun _ => Eval.setHeld m.held >>= f) m)
      ((y >>= fun _ => Eval.setHeld m.held >>= g) m) := by
  rw [EStateM.bind_apply, EStateM.bind_apply]
  change regime.Ends false (quiet.joint m) post (x m) (y m) at hx
  generalize x m = r at hx
  generalize y m = r' at hx
  cases hx with
  | ok sound leads holds =>
    obtain ⟨m', rfl, hm⟩ := Diagonal.sound_iff.1 sound
    have hreached : Reached true m { m' with held := m.held } :=
      ⟨hm.ofHeap rfl hm.roots, leads.roots.1, fun _ => rfl⟩
    exact .rebase hreached (hf _ hreached)
  | error admitted fault =>
    cases fault
    exact .error
  | left excused => exact excused.elim
  | right excused => exact excused.elim

/-- Back to lockstep, if the run with signals takes down what was raised. -/
theorem Raises.steps {x : Eval α} {y : Eval β} {f : α → Eval γ} {g : β → Eval δ}
    {post : Joint → γ → δ → Prop} (hx : Raises exact s m P (x m) (y m))
    (hf : ∀ m' a b c, Reached exact m m' → P m'.heap a b c →
      regime.Ends exact (quiet.joint m') post (f a m') (g b (m'.raiseAt s c))) :
    regime.Steps exact (quiet.joint m) (x >>= f) (y >>= g) post := by
  show regime.Ends exact (quiet.joint m) post ((x >>= f) m) ((y >>= g) m)
  rw [EStateM.bind_apply, EStateM.bind_apply]
  generalize x m = r at hx
  generalize y m = r' at hx
  cases hx with
  | ok reached holds => exact .rebase reached.leads (hf _ _ _ _ reached holds)
  | error => exact .error trivial rfl

/-! ## Signals -/

/-- A root is there. -/
theorem exists_get?_of_mem (h : quiet.Holds m) (hs : s ∈ m.roots) :
    ∃ scope, m.heap.scopes.get? s = some scope :=
  h.roots s hs

/-- A `break` of the one is a signal of the other. -/
theorem Raises.setBroke {P : Heap → α → Unit → Completion → Prop} (h : quiet.Holds m)
    (hs : s ∈ m.roots) {a : α} (hP : P m.heap a () .broke) :
    Raises exact s m P (.ok a m) (Eval.store (Store.setBroke s) m) := by
  obtain ⟨scope, hget⟩ := exists_get?_of_mem h hs
  rw [Eval.setBroke_quiet hget (quietAt_of_holds h s)]
  exact .ok (.refl h) hP

/-- So is a `return`. -/
theorem Raises.setReturned {P : Heap → α → Unit → Completion → Prop} (h : quiet.Holds m)
    (hs : s ∈ m.roots) {a : α} {value : Value} (hP : P m.heap a () (.returned value)) :
    Raises exact s m P (.ok a m) (Eval.store (Store.setReturned s value) m) := by
  obtain ⟨scope, hget⟩ := exists_get?_of_mem h hs
  rw [Eval.setReturned_quiet hget (quietAt_of_holds h s)]
  exact .ok (.refl h) hP

/-- Taking signals down and going on. -/
theorem lowerSignals_bind (h : quiet.Holds m) (hs : m.heap.Resolves (.scope s))
    (g : Bool × Option Value → Eval δ) (c : Completion) :
    (Eval.store (Store.lowerSignals s) >>= g) (m.raiseAt s c) = g c.signals m := by
  obtain ⟨scope, hget⟩ := hs
  rw [EStateM.bind_apply, Eval.lowerSignals_raiseAt hget (quietAt_of_holds h s)]

/-! ## Scopes, calls and values under way -/

/-- A scope that is there may be entered. -/
theorem holds_entered (h : quiet.Holds m) (hs : m.heap.Resolves (.scope s)) :
    quiet.Holds { m with scope := s, frames := m.scope :: m.frames } := by
  refine h.ofHeap rfl fun id hid => ?_
  rcases List.mem_cons.1 hid with rfl | hid
  · exact h.roots m.root List.mem_cons_self
  rcases List.mem_cons.1 hid with rfl | hid
  · exact hs
  · exact h.roots id (List.mem_cons_of_mem _ hid)

/-- Coming back from another scope, which is still there. -/
theorem Raises.within {x : Eval α} {y : Eval β} {child : ScopeId}
    (hx : Raises exact s { m with scope := child, frames := m.scope :: m.frames } P
      (x { m with scope := child, frames := m.scope :: m.frames })
      (y { m with scope := child, frames := m.scope :: m.frames })) :
    Raises exact s m (fun heap a b c => heap.Resolves (.scope child) ∧ P heap a b c)
      (Eval.within child x m) (Eval.within child y m) := by
  rw [Eval.within_apply, Eval.within_apply]
  generalize x { m with scope := child, frames := m.scope :: m.frames } = r at hx
  generalize y { m with scope := child, frames := m.scope :: m.frames } = r' at hx
  cases hx with
  | @ok inner a b c reached holds =>
    have hroots : inner.root :: m.scope :: m.frames = m.roots :=
      congrArg (· :: m.scope :: m.frames) (List.cons.inj reached.roots).1
    have hchild : inner.heap.Resolves (.scope child) :=
      reached.holds.roots child (reached.mem (scope_mem_roots _))
    -- whatever was a root outside was one inside
    have hback : quiet.Holds { inner with scope := m.scope, frames := m.frames } := by
      refine reached.holds.ofHeap rfl fun id hid => reached.holds.roots id (reached.mem ?_)
      exact Regime.mem_roots_entered (hroots ▸ hid)
    exact .ok ⟨hback, hroots, reached.held⟩ ⟨hchild, holds⟩
  | error => exact .error

/-- One call deeper, the two end alike. -/
theorem Raises.deeper {x : Eval α} {y : Eval β}
    (hx : Raises exact s { m with depth := m.depth + 1 } P (x { m with depth := m.depth + 1 })
      (y { m with depth := m.depth + 1 })) :
    Raises exact s m P (Eval.deeper x m) (Eval.deeper y m) := by
  rw [Eval.deeper_apply, Eval.deeper_apply]
  generalize x { m with depth := m.depth + 1 } = r at hx
  generalize y { m with depth := m.depth + 1 } = r' at hx
  cases hx with
  | ok reached holds =>
    exact .ok ⟨reached.holds.ofHeap rfl reached.holds.roots, reached.roots, reached.held⟩ holds
  | error => exact .error

/-- Letting go of what was held meanwhile, the two end alike. -/
theorem Raises.lettingGo {x : Eval α} {y : Eval β} (hx : Raises exact s m P (x m) (y m)) :
    Raises true s m P (Eval.lettingGo x m) (Eval.lettingGo y m) := by
  unfold Eval.lettingGo
  generalize x m = r at hx
  generalize y m = r' at hx
  cases hx with
  | ok reached holds =>
    exact .ok ⟨reached.holds.ofHeap rfl reached.holds.roots, reached.roots, fun _ => rfl⟩ holds
  | error => exact .error

/-! ## Loops -/

/-- How the turns of two loops may end: they go on with nothing raised, or both are done. -/
inductive TurnEnds (Q : Heap → γ → δ → Completion → Prop) (heap : Heap) :
    Turn Unit γ → Turn Unit δ → Completion → Prop where
  | again : TurnEnds Q heap (.again ()) (.again ()) .normal
  | done {a : γ} {b : δ} {c : Completion} (h : Q heap a b c) :
    TurnEnds Q heap (.done a) (.done b) c

/-- Two loops raise what their last turns raise.  Induction on the turns that are left. -/
theorem Raises.iterate {n : Nat} {f : Unit → Eval (Turn Unit γ)} {g : Unit → Eval (Turn Unit δ)}
    (hturn : ∀ m', Reached true m m' → Raises true s m' (TurnEnds Q) (f () m') (g () m'))
    (h : quiet.Holds m) :
    Raises true s m Q (Tao.iterate n f () m) (Tao.iterate n g () m) := by
  suffices hnow : ∀ m', Reached true m m' →
      Raises true s m' Q (Tao.iterate n f () m') (Tao.iterate n g () m') from hnow m (.refl h)
  induction n with
  | zero => exact fun _ _ => .error
  | succ n ih =>
    intro m' hreached
    refine (hturn m' hreached).bind fun next a b c hnext hend => ?_
    cases hend with
    | again =>
      rw [Machine.raiseAt_normal (quietAt_of_holds hnext.holds s)]
      exact ih next (hreached.trans hnext)
    | done h => exact .ok (.refl hnext.holds) h

end Rules

end Signals

end Tao
