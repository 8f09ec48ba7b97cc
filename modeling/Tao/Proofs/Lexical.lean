/-
  Scoping is lexical.

  What a call does depends neither on the scope that is active where it is made, nor on the scopes
  to come back to, nor on the values held: a body runs in a scope inside of the one in which its
  function was made, a built-in function looks at its arguments only, and both find on the way out
  what they found on the way in.  Only the collector looks at more, so this is said of calls that
  collect nothing.

  The names of a body are watched as well, wherever it evaluates an expression or executes a
  statement itself and not in a further call.  The active scope has been made since the call began,
  and a name that is seen there is bound in a scope made since, or on the chain of scopes around the
  function.
-/
import Mathlib
import Tao.Proofs.Tandem.Run

namespace Tao

/-! ## Calls that collect nothing -/

/-- A pause that halts where garbage would be collected. -/
def Eval.unlessGrown (alarm : Halt RuntimeError) : Eval Unit :=
  Eval.require (fun m => m.hasGrown = false) alarm

/-- The pause does nothing where no garbage is due. -/
theorem Eval.unlessGrown_of_small {alarm : Halt RuntimeError} {m : Machine}
    (h : m.hasGrown = false) : unlessGrown alarm m = .ok () m :=
  if_pos h

theorem Eval.unlessGrown_of_grown {alarm : Halt RuntimeError} {m : Machine}
    (h : ¬ m.hasGrown = false) : unlessGrown alarm m = .error alarm m :=
  if_neg h

/-- The usual pause does nothing where no garbage is due, either. -/
theorem Eval.collectIfGrown_of_small {m : Machine} (h : m.hasGrown = false) :
    collectIfGrown m = .ok () m := by
  rw [← collectWhen_hasGrown]
  exact if_neg (Bool.eq_false_iff.1 h)

/-- The evaluator that halts where garbage would be collected. -/
def Evaluator.uncollected (alarm : Halt RuntimeError) (n : Nat) : Evaluator :=
  watched (.doing (Eval.unlessGrown alarm) Eval.write) n

/-- A call in which no garbage is collected: to halt there makes no difference, whatever halt is
    chosen. -/
def Value.NeverCollects (callee : Value) (fuel : Nat) (arguments : List Value) (m : Machine) :
    Prop :=
  ∀ alarm, (Evaluator.uncollected alarm fuel).call callee arguments m =
    callee.call fuel arguments m

namespace Tandem

/-- Two runs that may be in different scopes. -/
def elsewhere : Tandem where
  Meets m m' := ∃ scope frames held, m' = { m with scope, frames, held }
  HeldAlike _ _ := True
  Matches halt halt' := halt = halt'
  excuses _ := False
  Ahead _ _ := False
  lasting := False
  Fits _ _ := True

/-- The scope, the scopes to come back to and the values held are not what a built-in function or a
    value looks at. -/
theorem lawful_elsewhere : elsewhere.Lawful where
  heap := by
    rintro m _ ⟨_, _, _, rfl⟩
    rfl
  root := by
    rintro m _ ⟨_, _, _, rfl⟩
    rfl
  entryPoint := by
    rintro m _ ⟨_, _, _, rfl⟩
    rfl
  stamps := by
    rintro m _ ⟨_, _, _, rfl⟩
    rfl
  setHeap := by
    rintro m _ heap ⟨_, _, _, rfl⟩ -
    exact ⟨_, _, _, rfl⟩
  stamped := by
    rintro m _ ⟨_, _, _, rfl⟩
    exact ⟨_, _, _, rfl⟩
  heldTotal vs := ⟨vs, trivial⟩
  heldCons _ _ := trivial
  held _ := trivial
  setHeld := by
    rintro m _ us vs - ⟨_, _, _, rfl⟩
    exact ⟨_, _, _, rfl⟩
  enter := by
    rintro m _ ⟨_, _, _, rfl⟩ scope
    exact ⟨_, _, _, rfl⟩
  leave := by
    rintro m _ n _ ⟨_, _, _, rfl⟩ ⟨_, _, _, rfl⟩
    exact ⟨_, _, _, rfl⟩
  deepen := by
    rintro m _ ⟨_, _, _, rfl⟩
    exact ⟨_, _, _, rfl⟩
  surface := by
    rintro m _ n _ ⟨_, _, _, rfl⟩ ⟨_, _, _, rfl⟩
    exact ⟨_, _, _, rfl⟩
  checkDepth := by
    refine .checkDepth ?_ ?_ fun _ => rfl
    all_goals
      rintro m _ ⟨_, _, _, rfl⟩
      rfl
  fitsLater _ _ := trivial
  fitsInside _ := trivial
  ordinary _ := rfl
  outOfFuel h := h.elim

variable {here : Option ScopeId} {alarm : Halt RuntimeError}

/-- Writing is the same in any scope. -/
theorem goes_write_elsewhere (text : String) :
    elsewhere.Goes here (Eval.write text) (Eval.write text) := by
  refine .write ?_ ?_ rfl fun _ _ h => h.elim
  · rintro m _ ⟨_, _, _, rfl⟩
    rfl
  · rintro m _ sink ⟨_, _, _, rfl⟩ -
    exact ⟨_, _, _, rfl⟩

/-- Whether garbage is due depends on the heap alone. -/
theorem goes_unlessGrown_elsewhere :
    elsewhere.Goes here (Eval.unlessGrown alarm) (Eval.unlessGrown alarm) := by
  refine ⟨?_, fun _ _ h => h.elim⟩
  rintro m _ ⟨scope, frames, held, rfl⟩ -
  by_cases hsmall : m.hasGrown = false
  · have hsmall' : Machine.hasGrown { m with scope, frames, held } = false := hsmall
    rw [Eval.unlessGrown_of_small hsmall, Eval.unlessGrown_of_small hsmall']
    exact .ok ⟨_, _, _, rfl⟩ .refl
  · have hgrown' : ¬ Machine.hasGrown { m with scope, frames, held } = false := hsmall
    rw [Eval.unlessGrown_of_grown hsmall, Eval.unlessGrown_of_grown hgrown']
    exact .error rfl ⟨_, _, _, rfl⟩

/-- Hence an evaluator that collects nothing goes the same way elsewhere. -/
theorem runs_elsewhere (alarm : Halt RuntimeError) (n : Nat) :
    elsewhere.Runs (Evaluator.uncollected alarm n) (Evaluator.uncollected alarm n) :=
  runs_doing lawful_elsewhere (fun _ _ => trivial) (fun _ => goes_unlessGrown_elsewhere)
    goes_write_elsewhere (.inl ⟨rfl, rfl⟩)

/-- No halt is excused, so one result gives the other. -/
theorem elsewhere_cases {m m' : Machine}
    {r r' : EStateM.Result (Halt RuntimeError) Machine Value} (h : elsewhere.Ends m m' r r') :
    ∃ scope frames held, r' = endingOn (fun n => { n with scope, frames, held }) r := by
  cases h with
  | ok meets _ =>
    obtain ⟨scope, frames, held, rfl⟩ := meets
    exact ⟨scope, frames, held, rfl⟩
  | error matched meets =>
    obtain rfl := matched
    obtain ⟨scope, frames, held, rfl⟩ := meets
    exact ⟨scope, frames, held, rfl⟩
  | stopped excused _ => exact excused.elim

/-! ## Runs on the same machine -/

/-- Two runs on the same machine, whose heap has a property. -/
def same (I : Heap → Prop) (excuses : Halt RuntimeError → Prop) (lasting : Prop)
    (Fits : Heap → ScopeId → Prop) : Tandem where
  Meets m m' := m = m' ∧ I m.heap
  HeldAlike us vs := us = vs
  Matches halt halt' := halt = halt'
  excuses := excuses
  Ahead _ _ := True
  lasting := lasting
  Fits := Fits

variable {I : Heap → Prop} {excuses : Halt RuntimeError → Prop} {lasting : Prop}
  {Fits : Heap → ScopeId → Prop} {m : Machine}

/-- Two runs on one machine keep what they know of its heap, if it is never lost and holds of the
    scopes that are made. -/
theorem lawful_same
    (hI : ∀ heap heap' : Heap, I heap → (lasting → heap.Extends heap') → I heap')
    (hlater : ∀ {heap heap' : Heap} {c}, Fits heap c → (lasting → heap.Extends heap') →
      Fits heap' c)
    (hinside : ∀ {heap : Heap} {c}, Fits heap c →
      Fits (heap.addScope (.inside (some c))).1 (heap.addScope (.inside (some c))).2) :
    (same I excuses lasting Fits).Lawful where
  heap hm := by rw [hm.1]
  root hm := by rw [hm.1]
  entryPoint hm := by rw [hm.1]
  stamps hm := by rw [hm.1]
  setHeap hm hextends := ⟨by rw [hm.1], hI _ _ hm.2 fun _ => hextends⟩
  stamped hm := ⟨by rw [hm.1], hm.2⟩
  heldTotal vs := ⟨vs, rfl⟩
  heldCons h u := congrArg (u :: ·) h
  held hm := congrArg Machine.held hm.1
  setHeld h hm := by
    obtain rfl := h
    exact ⟨by rw [hm.1], hm.2⟩
  enter hm _ := ⟨by rw [hm.1], hm.2⟩
  leave hm hn := ⟨by rw [hm.1, hn.1], hn.2⟩
  deepen hm := ⟨by rw [hm.1], hm.2⟩
  surface hm hn := ⟨by rw [hm.1, hn.1], hn.2⟩
  checkDepth := .checkDepth (fun hm => by rw [hm.1]) (fun hm => by rw [hm.1]) fun _ => rfl
  fitsLater := hlater
  fitsInside := hinside
  ordinary _ := rfl
  outOfFuel _ _ := trivial

theorem goes_write_same (text : String) :
    (same I excuses lasting Fits).Goes here (Eval.write text) (Eval.write text) :=
  .write (fun hm => by rw [hm.1]) (fun hm _ => ⟨by rw [hm.1], hm.2⟩) rfl fun _ _ _ => trivial

/-- Either both end in the same way, or the left one has been excused. -/
theorem eq_or_excused {r r' : EStateM.Result (Halt RuntimeError) Machine Value}
    (h : (same I excuses lasting Fits).Ends m m r r') :
    r' = r ∨ ∃ halt n, r = .error halt n ∧ excuses halt := by
  cases h with
  | ok meets _ =>
    obtain ⟨rfl, -⟩ := meets
    exact .inl rfl
  | error matched meets =>
    obtain rfl := matched
    obtain ⟨rfl, -⟩ := meets
    exact .inl rfl
  | stopped excused _ => exact .inr ⟨_, _, rfl, excused⟩

/-- A call that does not halt where garbage would be collected is the same with any other pause that
    does nothing where there is none. -/
theorem call_eq_uncollected {pause : Eval Unit}
    (hidle : ∀ m, m.hasGrown = false → pause m = .ok () m) {fuel : Nat} {callee : Value}
    {arguments : List Value}
    (hnever : ∀ n, (Evaluator.uncollected alarm fuel).call callee arguments m ≠ .error alarm n) :
    (Evaluator.watched (.doing pause Eval.write) fuel).call callee arguments m =
      (Evaluator.uncollected alarm fuel).call callee arguments m := by
  let T := same (fun _ => True) (· = alarm) False (fun _ _ => True)
  have hT : T.Lawful := lawful_same (fun _ _ _ _ => trivial) (fun _ _ => trivial) fun _ => trivial
  have hpause : ∀ c, T.Goes (some c) (Eval.unlessGrown alarm) pause := by
    refine fun c => ⟨?_, fun _ _ _ => trivial⟩
    rintro m _ ⟨rfl, -⟩ -
    by_cases hsmall : m.hasGrown = false
    · rw [Eval.unlessGrown_of_small hsmall, hidle m hsmall]
      exact .ok ⟨rfl, trivial⟩ .refl
    · rw [Eval.unlessGrown_of_grown hsmall]
      exact .stopped rfl trivial
  have hruns : T.Runs (Evaluator.uncollected alarm fuel)
      (Evaluator.watched (.doing pause Eval.write) fuel) :=
    runs_doing hT (fun _ _ => trivial) hpause goes_write_same (.inl ⟨rfl, rfl⟩)
  have hends := (hruns.call callee arguments).together m m ⟨rfl, trivial⟩ .anywhere
  rcases eq_or_excused hends with heq | ⟨_, n, hhalted, rfl⟩
  · exact heq
  · exact absurd hhalted (hnever n)

end Tandem

/-- The usual evaluator is one of those that are made with a pause and a way to write. -/
theorem Value.call_eq_watched (fuel : Nat) (callee : Value) (arguments : List Value) :
    callee.call fuel arguments =
      (Evaluator.watched (.doing Eval.collectIfGrown Eval.write) fuel).call callee arguments := by
  unfold Value.call
  rw [Evaluator.watched_doing_usual]

/-- Some halt is not the one that a run ends with. -/
theorem exists_other_halt (r : EStateM.Result (Halt RuntimeError) Machine Value) :
    ∃ alarm, ∀ n, r ≠ .error alarm n := by
  cases r with
  | ok a n => exact ⟨.outOfFuel, fun _ h => nomatch h⟩
  | error halt n =>
    cases halt with
    | outOfFuel => exact ⟨.failed .sinkFull, fun _ h => nomatch h⟩
    | failed e => exact ⟨.outOfFuel, fun _ h => nomatch h⟩

/-- Changes to the machine do not change with which halt a run ends. -/
theorem endingOn_ne_error {f : Machine → Machine}
    {r : EStateM.Result (Halt RuntimeError) Machine Value} {alarm : Halt RuntimeError}
    (h : ∀ n, r ≠ .error alarm n) (n : Machine) : endingOn f r ≠ .error alarm n := by
  cases r with
  | ok a o => exact nofun
  | error halt o =>
    rintro ⟨⟩
    exact h o rfl

/-- A call that collects nothing collects nothing elsewhere, and does the same. -/
theorem Value.call_elsewhere {fuel : Nat} {callee : Value} {arguments : List Value}
    {m : Machine} (hquiet : callee.NeverCollects fuel arguments m) (scope : ScopeId)
    (frames : List ScopeId) (held : List Value) :
    callee.NeverCollects fuel arguments { m with scope, frames, held } ∧ ∃ held',
      callee.call fuel arguments { m with scope, frames, held } =
        endingOn (fun n => { n with scope, frames, held := held' })
          (callee.call fuel arguments m) := by
  let m' : Machine := { m with scope, frames, held }
  have hends : ∀ alarm, Tandem.elsewhere.Ends m m' (callee.call fuel arguments m)
      ((Evaluator.uncollected alarm fuel).call callee arguments m') := by
    intro alarm
    rw [← hquiet alarm]
    exact ((Tandem.runs_elsewhere alarm fuel).call callee arguments).together m m'
      ⟨_, _, _, rfl⟩ .anywhere
  -- with an alarm that is no end of the call, a collection would be seen
  obtain ⟨alarm, halarm⟩ := exists_other_halt (callee.call fuel arguments m)
  obtain ⟨scope', frames', held', hresult⟩ := Tandem.elsewhere_cases (hends alarm)
  have hnever : ∀ n, (Evaluator.uncollected alarm fuel).call callee arguments m' ≠
      .error alarm n := by
    rw [hresult]
    exact endingOn_ne_error halarm
  have hcall : callee.call fuel arguments m' =
      (Evaluator.uncollected alarm fuel).call callee arguments m' := by
    rw [Value.call_eq_watched]
    exact Tandem.call_eq_uncollected (fun _ => Eval.collectIfGrown_of_small) hnever
  -- a call gives back the scope and the frames that it found, so these are the ones of before
  have hback : Machine.Back false m' ((callee.call fuel arguments).reached m') :=
    Eval.Balanced.back
      (fun base => (Evaluator.givesBack_ofFuel fuel).call false base callee arguments nofun) m'
  have hfinal : (callee.call fuel arguments).reached m' =
      { final (callee.call fuel arguments m) with
        scope := scope', frames := frames', held := held' } := by
    show final (callee.call fuel arguments m') = _
    rw [hcall, hresult, final_endingOn]
  rw [hfinal] at hback
  have hscope : scope' = scope := hback.scope_eq
  have hframes : frames' = frames := hback.frames_eq
  refine ⟨fun other => ?_, held', ?_⟩
  · rw [hcall]
    exact Tandem.call_eq_uncollected (fun _ => Eval.unlessGrown_of_small) hnever
  · rw [hcall, hresult, hscope, hframes]

/-! ## What is seen from a body -/

/-- The second scope is met on the way outward from the first one, or is the first one itself. -/
inductive Heap.Outward (heap : Heap) : ScopeId → ScopeId → Prop where
  | here (c : ScopeId) : Outward heap c c
  | out {c parent owner : ScopeId} {scope : Scope} (there : heap.scopes.get? c = some scope)
    (inside : scope.parent = some parent) (rest : Outward heap parent owner) : Outward heap c owner

/-- The active scope has been made since, and whatever is seen from it under a name is bound in a
    scope made since, or in one on the way outward from `outer`. -/
def Machine.SeesOnly (before : Heap) (outer : ScopeId) (m : Machine) : Prop :=
  before.scopes.get? m.scope = none ∧
    ∀ name owner value, m.heap.resolve m.scope name = .bound owner value →
      before.scopes.get? owner = none ∨ m.heap.Outward outer owner

open scoped Classical in
/-- Runs `x`.  Halts if a test is not passed before it or, when it succeeds, after it. -/
noncomputable def Eval.testedAround {α : Type} (test : Machine → Prop) (alarm : Halt RuntimeError)
    (x : Eval α) : Eval α := do
  Eval.require test alarm
  Eval.ensure (fun _ _ m => test m) alarm x

/-- The evaluator that halts where garbage would be collected, and wherever a scope is active from
    which anything else is seen.  It calls as usual. -/
noncomputable def Evaluator.seeingOnly (before : Heap) (outer : ScopeId)
    (alarm : Halt RuntimeError) : Nat → Evaluator
  | 0 => uncollected alarm 0
  | n + 1 =>
    let below := seeingOnly before outer alarm n
    { uncollected alarm (n + 1) with
      evaluate := fun expression =>
        Eval.testedAround (Machine.SeesOnly before outer) alarm
          (Eval.kept (below.express expression))
      execute := fun statement =>
        Eval.testedAround (Machine.SeesOnly before outer) alarm
          (Eval.lettingGo (below.perform statement)) }

/-- Calls a function in whose body nothing is seen but what was made since, and what is seen from
    the scope in which the function was made. -/
noncomputable def Closure.callSeeing (closure : Closure) (alarm : Halt RuntimeError) (fuel : Nat)
    (arguments : List Value) : Eval Value := fun m =>
  match fuel with
  | 0 => .error .outOfFuel m
  | n + 1 =>
    (Evaluator.seeingOnly m.heap closure.scope alarm n).callClosure closure arguments m

namespace Heap

variable {before heap heap' : Heap} {outer c : ScopeId}

/-- A scope made since, inside of others, all of them inside of `outer`; or `outer` itself. -/
inductive MadeInside (heap before : Heap) (outer : ScopeId) : ScopeId → Prop where
  | outer : MadeInside heap before outer outer
  | inner {c parent : ScopeId} {scope : Scope} (new : before.scopes.get? c = none)
    (there : heap.scopes.get? c = some scope) (inside : scope.parent = some parent)
    (rest : MadeInside heap before outer parent) : MadeInside heap before outer c

/-- A scope made inside of others remains so.  Induction on these. -/
theorem MadeInside.later (hwf : heap.WellFormed) (hextends : heap.Extends heap')
    (h : heap.MadeInside before outer c) : heap'.MadeInside before outer c := by
  induction h with
  | outer => exact .outer
  | @inner c parent scope new there inside _ ih =>
    obtain ⟨later, hlater, hparent⟩ := (hextends hwf).2.1 c scope there
    exact .inner new hlater (hparent.trans inside) ih

/-- What is made now was not there before. -/
theorem Extends.get?_addScope (hbefore : before.WellFormed) (hextends : before.Extends heap)
    (scope : Scope) : before.scopes.get? (heap.addScope scope).2 = none := by
  obtain ⟨hwf, hkept, -⟩ := hextends hbefore
  cases hold : before.scopes.get? (heap.addScope scope).2 with
  | none => rfl
  | some old =>
    obtain ⟨later, hlater, -⟩ := hkept _ old hold
    have hvacant : heap.scopes.get? (heap.addScope scope).2 = none :=
      Arena.get?_new hwf.scopes scope
    rw [hvacant] at hlater
    cases hlater

/-- A new scope inside of such a one is one, too. -/
theorem MadeInside.addScope (hbefore : before.WellFormed) (hextends : before.Extends heap)
    {scope : Scope} {parent : ScopeId} (hparent : scope.parent = some parent)
    (h : heap.MadeInside before outer parent) :
    (heap.addScope scope).1.MadeInside before outer (heap.addScope scope).2 := by
  have hwf : heap.WellFormed := (hextends hbefore).1
  have hthere : (heap.addScope scope).1.scopes.get? (heap.addScope scope).2 = some scope := by
    rw [Heap.get?_addScope hwf, if_pos rfl]
  exact .inner (hextends.get?_addScope hbefore scope) hthere hparent
    (h.later hwf (.addScope heap scope))

/-- A name is bound on the way outward.  Induction on the steps. -/
theorem outward_of_resolveWithin {name : String} {steps : Nat} {owner : ScopeId} {value : Value}
    (h : heap.resolveWithin name steps c = .bound owner value) : heap.Outward c owner := by
  induction steps generalizing c with
  | zero => cases h
  | succ steps ih =>
    unfold resolveWithin at h
    split at h
    · cases h
    · next scope hscope =>
      split at h
      · cases h
        exact .here _
      · split at h
        · next parent hparent => exact .out hscope hparent (ih h)
        · cases h

/-- Induction on the scopes between the active one and `outer`. -/
theorem MadeInside.resolveWithin (h : heap.MadeInside before outer c) {name : String} {steps : Nat}
    {owner : ScopeId} {value : Value}
    (hresolve : heap.resolveWithin name steps c = .bound owner value) :
    before.scopes.get? owner = none ∨ heap.Outward outer owner := by
  induction h generalizing steps with
  | outer => exact .inr (outward_of_resolveWithin hresolve)
  | @inner c parent scope new there inside _ ih =>
    cases steps with
    | zero => cases hresolve
    | succ steps =>
      unfold Heap.resolveWithin at hresolve
      rw [there] at hresolve
      dsimp only at hresolve
      split at hresolve
      · cases hresolve
        exact .inl new
      · rw [inside] at hresolve
        exact ih hresolve

end Heap

namespace Tandem

/-- A run in which what is seen is tested and one in which it is not. -/
def seeing (before : Heap) (outer : ScopeId) : Tandem :=
  same before.Extends (fun _ => False) True fun heap c =>
    before.Extends heap ∧ before.scopes.get? c = none ∧ heap.MadeInside before outer c

variable {before : Heap} {outer c : ScopeId} {α : Type} {x y : Eval α}

/-- Each new scope is made inside of the active one. -/
theorem lawful_seeing (hbefore : before.WellFormed) : (seeing before outer).Lawful :=
  lawful_same (fun _ _ hheap hlater => hheap.trans (hlater trivial))
    (fun ⟨hheap, hnew, hinside⟩ hlater => ⟨hheap.trans (hlater trivial), hnew,
      hinside.later (hheap hbefore).1 (hlater trivial)⟩)
    fun ⟨hheap, _, hinside⟩ => ⟨hheap.trans (.addScope _ _), hheap.get?_addScope hbefore _,
      hinside.addScope hbefore hheap rfl⟩

/-- Where the active scope fits, the test is passed. -/
theorem seesOnly_of_ready {m m' : Machine} (h : (seeing before outer).Ready (some c) m m') :
    m.SeesOnly before outer := by
  obtain ⟨rfl, -, -, hnew, hinside⟩ := h c rfl
  exact ⟨hnew, fun _ _ _ hresolve => hinside.resolveWithin hresolve⟩

open scoped Classical in
/-- The test is passed before and after. -/
theorem Goes.testedAround (hT : (seeing before outer).Lawful)
    (h : (seeing before outer).Goes (some c) x y) :
    (seeing before outer).Goes (some c)
      (Eval.testedAround (Machine.SeesOnly before outer) alarm x) y := by
  refine ⟨fun m m' hm hready => ?_, h.staysAhead⟩
  have hends := h.together m m' hm hready
  have htest : m.SeesOnly before outer := seesOnly_of_ready hready
  have hrequire : Eval.require (Machine.SeesOnly before outer) alarm m = .ok () m := if_pos htest
  unfold Eval.testedAround
  rw [EStateM.bind_of_ok hrequire]
  unfold Eval.ensure
  generalize x m = r at hends
  generalize y m' = s at hends
  cases hends with
  | ok meets leads =>
    dsimp only
    rw [if_pos (seesOnly_of_ready (hready.later hT leads))]
    exact .ok meets leads
  | error matched meets => exact .error matched meets
  | stopped excused ahead => exact .stopped excused ahead

/-- What is known of active scopes does not matter to a call. -/
theorem Goes.refit {T : Tandem} {Fits : Heap → ScopeId → Prop}
    (h : { T with Fits }.Goes none x y) : T.Goes none x y := by
  refine ⟨fun m m' hm _ => ?_, h.staysAhead⟩
  have hends := h.together m m' hm .anywhere
  generalize x m = r at hends
  generalize y m' = s at hends
  cases hends with
  | ok meets leads => exact .ok meets ⟨leads.left, leads.right, leads.heap⟩
  | error matched meets => exact .error matched meets
  | stopped excused ahead => exact .stopped excused ahead

/-- The pause may halt, but both runs do so. -/
theorem goes_unlessGrown_same {I : Heap → Prop} {excuses : Halt RuntimeError → Prop}
    {lasting : Prop} {Fits : Heap → ScopeId → Prop} {here : Option ScopeId} :
    (same I excuses lasting Fits).Goes here (Eval.unlessGrown alarm) (Eval.unlessGrown alarm) := by
  refine ⟨?_, fun _ _ _ => trivial⟩
  rintro m _ ⟨rfl, hheap⟩ -
  by_cases hsmall : m.hasGrown = false
  · rw [Eval.unlessGrown_of_small hsmall]
    exact .ok ⟨rfl, hheap⟩ .refl
  · rw [Eval.unlessGrown_of_grown hsmall]
    exact .error rfl ⟨rfl, hheap⟩

/-- A call goes as any does that is made the same way. -/
theorem goes_call_seeing (n : Nat) (callee : Value) (arguments : List Value) :
    (seeing before outer).Goes none ((Evaluator.uncollected alarm n).call callee arguments)
      ((Evaluator.uncollected alarm n).call callee arguments) := by
  let T := same before.Extends (fun _ => False) True (fun _ _ => True)
  have hT : T.Lawful :=
    lawful_same (fun _ _ hheap hlater => hheap.trans (hlater trivial)) (fun _ _ => trivial)
      fun _ => trivial
  have hruns : T.Runs (Evaluator.uncollected alarm n) (Evaluator.uncollected alarm n) :=
    runs_doing hT (fun _ _ => trivial) (fun _ => goes_unlessGrown_same) goes_write_same
      (.inl ⟨rfl, rfl⟩)
  exact (hruns.call callee arguments).refit

/-- Induction on the levels.  Tests stand around expressions and statements only. -/
theorem runs_seeing (hbefore : before.WellFormed) (n : Nat) :
    (seeing before outer).Runs (Evaluator.seeingOnly before outer alarm n)
      (Evaluator.uncollected alarm n) := by
  have hT : (seeing before outer).Lawful := lawful_seeing hbefore
  induction n with
  | zero =>
    exact ⟨.inl ⟨rfl, rfl⟩, fun _ => goes_unlessGrown_same, fun _ _ => .halts rfl,
      fun _ _ => .halts rfl, goes_call_seeing 0⟩
  | succ n ih =>
    exact ⟨.inl ⟨rfl, rfl⟩, fun _ => goes_unlessGrown_same,
      fun c e => ((ih.express hT e).kept hT).testedAround hT,
      fun c s => ((ih.perform hT s).lettingGo hT).testedAround hT, goes_call_seeing (n + 1)⟩

end Tandem

/-- Tests of what is seen from the body of a function make no difference to a call that collects
    nothing. -/
theorem Closure.callSeeing_eq_call {closure : Closure} {fuel : Nat} {arguments : List Value}
    {m : Machine} (hwf : m.heap.WellFormed)
    (hquiet : (Value.function closure).NeverCollects fuel arguments m) (alarm : Halt RuntimeError) :
    closure.callSeeing alarm fuel arguments m =
      (Value.function closure).call fuel arguments m := by
  rw [← hquiet alarm]
  cases fuel with
  | zero => rfl
  | succ n =>
    let T := Tandem.seeing m.heap closure.scope
    have hruns : T.Runs (Evaluator.seeingOnly m.heap closure.scope alarm n)
        (Evaluator.uncollected alarm n) := Tandem.runs_seeing hwf n
    have hcall := hruns.callClosure (Tandem.lawful_seeing hwf) closure arguments (by
      rintro o _ scope ⟨rfl, hextends⟩ hparent
      exact ⟨hextends.trans (.addScope _ _), hextends.get?_addScope hwf scope,
        .addScope hwf hextends hparent .outer⟩)
    rcases Tandem.eq_or_excused (hcall.together m m ⟨rfl, .refl _⟩ .anywhere) with
      heq | ⟨_, _, -, hexcused⟩
    · exact heq.symm
    · exact hexcused.elim

/-- Whatever is called, in whatever scope: if no garbage is collected, none would be with other
    scopes active and other values held, and the call would do and give the same.  In the body of
    the function nothing is seen but what was made since, and what is seen from the scope in which
    the function was made. -/
theorem Value.call_lexical {fuel : Nat} {callee : Value} {arguments : List Value} {m : Machine}
    (hquiet : callee.NeverCollects fuel arguments m) :
    (∀ scope frames held, callee.NeverCollects fuel arguments { m with scope, frames, held } ∧
      ∃ held', callee.call fuel arguments { m with scope, frames, held } =
        endingOn (fun n => { n with scope, frames, held := held' })
          (callee.call fuel arguments m)) ∧
    ∀ closure, callee = .function closure → m.heap.WellFormed →
      ∀ alarm, closure.callSeeing alarm fuel arguments m = callee.call fuel arguments m := by
  refine ⟨fun scope frames held => callee.call_elsewhere hquiet scope frames held, ?_⟩
  rintro closure rfl hwf alarm
  exact Closure.callSeeing_eq_call hwf hquiet alarm

/-- Two scopes, one inside of the other, that both bind `x`.  The outer one is active; the inner one
    comes second. -/
def Machine.shadowing : Machine × ScopeId :=
  let m := Machine.start {} .unlimited
  let (heap, outer) := m.heap.addScope ⟨[("x", .string "outer")], some m.root, false, none⟩
  let (heap, inner) := heap.addScope ⟨[("x", .string "inner")], some outer, false, none⟩
  ({ m with heap, scope := outer }, inner)

/-- A function made in the outer scope that gives the value of `x` and changes it:
    `function () { let was = x; x = "new"; return was; }`. -/
def Closure.changingX : Closure :=
  ⟨0, ⟨none, [],
    [.define "was" (some (.name "x")),
      .expression (.assign (.name "x") (.literal (.string "new"))),
      .giveBack (some (.name "was"))]⟩, Machine.shadowing.1.scope⟩

/-- In the inner scope, too, it gives and changes the `x` of the outer one. -/
theorem Value.call_lexical_shadowing :
    Machine.shadowing.1.heap.valueOf Machine.shadowing.2 "x" = .ok (.string "inner") ∧
    ∃ n, (Value.function .changingX).call 9 [] Machine.shadowing.1 = .ok (.string "outer") n ∧
      n.heap.valueOf Machine.shadowing.1.scope "x" = .ok (.string "new") ∧
      n.heap.valueOf Machine.shadowing.2 "x" = .ok (.string "inner") ∧
      (∃ held, (Value.function .changingX).call 9 []
          { Machine.shadowing.1 with scope := Machine.shadowing.2 } =
        .ok (.string "outer") { n with scope := Machine.shadowing.2, held }) ∧
      ∀ alarm, Closure.changingX.callSeeing alarm 9 [] Machine.shadowing.1 =
        .ok (.string "outer") n := by
  have hquiet : (Value.function .changingX).NeverCollects 9 [] Machine.shadowing.1 := by
    intro alarm
    cbv
  have hwf : Machine.shadowing.1.heap.WellFormed :=
    (((Heap.wellFormed_empty.addObject _).addScope _).addScope _).addScope _
  obtain ⟨helsewhere, hseeing⟩ := Value.call_lexical hquiet
  obtain ⟨-, held, hinner⟩ := helsewhere Machine.shadowing.2 Machine.shadowing.1.frames
    Machine.shadowing.1.held
  have hbody := hseeing .changingX rfl hwf
  have hcall : (Value.function .changingX).call 9 [] Machine.shadowing.1 =
      .ok (.string "outer") _ := Eval.apply_of_outcome_ok (by cbv)
  refine ⟨by cbv, _, hcall, by cbv, by cbv, ⟨held, ?_⟩, fun alarm => (hbody alarm).trans hcall⟩
  have hframes : (((Value.function .changingX).call 9 []).reached Machine.shadowing.1).frames =
      Machine.shadowing.1.frames := by cbv
  rw [hinner, hcall, ← hframes]
  rfl

end Tao
