/-
  Two runs in tandem.

  Two runs that do the same to the heap are compared without pairing any handles: the values, the
  handles and the heaps of both are equal.  A `Tandem` says what else their machines have in common
  when they MEET.  The LEFT run may stop early, for a halt that is `excused`; then the RIGHT one
  goes on by itself, and what is claimed from then on is that its sink stays AHEAD of the sink that
  the left run has stopped with.

  `Goes` is the judgement about two computations.  It asks both that they go together from machines
  that meet and that the right one, by itself, stays ahead of whatever it is ahead of; so two
  sequences are judged part by part (`Goes.bind`), wherever the left one stops.

  Code runs HERE, in a scope that is active in both runs, or else nothing is known of the active
  scopes: that is how calls are judged.
-/
import Tao.Proofs.Control.Balance
import Tao.Proofs.Lockstep.Steps
import Tao.Proofs.Tandem.Steady

namespace Tao

/-! ## Ends of runs -/

/-- The machine at the end of a run. -/
def final {α : Type} (r : EStateM.Result (Halt RuntimeError) Machine α) : Machine :=
  match r with
  | .ok _ m => m
  | .error _ m => m

/-- The same end of a run on another machine. -/
def endingOn {α : Type} (f : Machine → Machine) (r : EStateM.Result (Halt RuntimeError) Machine α) :
    EStateM.Result (Halt RuntimeError) Machine α :=
  match r with
  | .ok a m => .ok a (f m)
  | .error halt m => .error halt (f m)

/-- A change of the machine changes the last one. -/
theorem final_endingOn {α : Type} (f : Machine → Machine)
    (r : EStateM.Result (Halt RuntimeError) Machine α) :
    final (endingOn f r) = f (final r) := by
  cases r <;> rfl

/-- Giving something back at the end is a change of the last machine. -/
theorem Eval.lettingGo_endingOn {α : Type} (x : Eval α) (m : Machine) :
    lettingGo x m = endingOn (fun n => { n with held := m.held }) (x m) := rfl

theorem Eval.deeper_endingOn {α : Type} (x : Eval α) (m : Machine) :
    deeper x m = endingOn (fun n => { n with depth := m.depth })
      (x { m with depth := m.depth + 1 }) := rfl

theorem Eval.within_endingOn {α : Type} (scope : ScopeId) (x : Eval α) (m : Machine) :
    within scope x m = endingOn (fun n => { n with scope := m.scope, frames := m.frames })
      (x { m with scope, frames := m.scope :: m.frames }) := rfl

/-- Looking at the depth leaves the machine. -/
theorem Evaluator.reached_checkDepth (m : Machine) : checkDepth.reached m = m := by
  unfold Eval.reached checkDepth
  by_cases hdeep : m.config.maxCallDepth ≤ m.depth
  · rw [if_pos hdeep]
  · rw [if_neg hdeep]

/-! ## Tandems -/

/-- How two runs are compared. -/
structure Tandem where
  /-- What the machines have in common. -/
  Meets : Machine → Machine → Prop
  /-- How the values that they hold compare. -/
  HeldAlike : List Value → List Value → Prop
  /-- Two halts that the runs may end with at one time. -/
  Matches : Halt RuntimeError → Halt RuntimeError → Prop
  /-- The halts that stop the left run alone. -/
  excuses : Halt RuntimeError → Prop
  /-- How the sink of the right run compares with the one that the left run has stopped with. -/
  Ahead : Sink → Sink → Prop
  /-- Do heaps lose no scopes? -/
  lasting : Prop
  /-- What is known of a scope that is active in both runs. -/
  Fits : Heap → ScopeId → Prop

namespace Tandem

variable (T : Tandem) {α β σ : Type}

/-- The scope that is active in both runs, if it is known. -/
def Ready (here : Option ScopeId) (m m' : Machine) : Prop :=
  ∀ c, here = some c → m.scope = c ∧ m'.scope = c ∧ T.Fits m.heap c

/-- What is known of later machines. -/
structure Leads (m m' n n' : Machine) : Prop where
  left : n.scope = m.scope
  right : n'.scope = m'.scope
  heap : T.lasting → m.heap.Extends n.heap

/-- How two runs from `m` and `m'` may end. -/
inductive Ends (m m' : Machine) : EStateM.Result (Halt RuntimeError) Machine α →
    EStateM.Result (Halt RuntimeError) Machine α → Prop where
  | ok {a : α} {n n' : Machine} (meets : T.Meets n n') (leads : T.Leads m m' n n') :
    Ends m m' (.ok a n) (.ok a n')
  | error {halt halt' : Halt RuntimeError} {n n' : Machine} (matched : T.Matches halt halt')
    (meets : T.Meets n n') : Ends m m' (.error halt n) (.error halt' n')
  | stopped {halt : Halt RuntimeError} {n : Machine}
    {r : EStateM.Result (Halt RuntimeError) Machine α} (excused : T.excuses halt)
    (ahead : T.Ahead n.sink (final r).sink) : Ends m m' (.error halt n) r

/-- By itself, this computation stays ahead of whatever it is ahead of. -/
def StaysAhead (y : Eval α) : Prop :=
  ∀ stopped m, T.Ahead stopped m.sink → T.Ahead stopped (y.reached m).sink

/-- Two computations go together, as long as the left one goes. -/
structure Goes (here : Option ScopeId) (x y : Eval α) : Prop where
  together : ∀ m m', T.Meets m m' → T.Ready here m m' → T.Ends m m' (x m) (y m')
  staysAhead : T.StaysAhead y

/-- How the bounds of two loops compare: they are the same, or the left one may stop earlier. -/
def Bounds (n n' : Nat) : Prop :=
  n = n' ∧ T.Matches .outOfFuel .outOfFuel ∨ T.excuses .outOfFuel ∧ n ≤ n'

/-- The laws of a tandem. -/
structure Lawful : Prop where
  heap : ∀ {m m'}, T.Meets m m' → m.heap = m'.heap
  root : ∀ {m m'}, T.Meets m m' → m.root = m'.root
  entryPoint : ∀ {m m'}, T.Meets m m' → m.config.entryPoint = m'.config.entryPoint
  stamps : ∀ {m m'}, T.Meets m m' → m.stamps = m'.stamps
  -- changing the machines
  setHeap : ∀ {m m' heap}, T.Meets m m' → m.heap.Extends heap →
    T.Meets { m with heap } { m' with heap }
  stamped : ∀ {m m'}, T.Meets m m' →
    T.Meets { m with stamps := m.stamps + 1 } { m' with stamps := m'.stamps + 1 }
  -- values held
  heldTotal : ∀ vs, ∃ us, T.HeldAlike us vs
  heldCons : ∀ {us vs}, T.HeldAlike us vs → ∀ u, T.HeldAlike (u :: us) (u :: vs)
  held : ∀ {m m'}, T.Meets m m' → T.HeldAlike m.held m'.held
  setHeld : ∀ {m m' us vs}, T.HeldAlike us vs → T.Meets m m' →
    T.Meets { m with held := us } { m' with held := vs }
  -- scopes and calls under way
  enter : ∀ {m m'}, T.Meets m m' → ∀ scope,
    T.Meets { m with scope, frames := m.scope :: m.frames }
      { m' with scope, frames := m'.scope :: m'.frames }
  leave : ∀ {m m' n n'}, T.Meets m m' → T.Meets n n' →
    T.Meets { n with scope := m.scope, frames := m.frames }
      { n' with scope := m'.scope, frames := m'.frames }
  deepen : ∀ {m m'}, T.Meets m m' →
    T.Meets { m with depth := m.depth + 1 } { m' with depth := m'.depth + 1 }
  surface : ∀ {m m' n n'}, T.Meets m m' → T.Meets n n' →
    T.Meets { n with depth := m.depth } { n' with depth := m'.depth }
  checkDepth : T.Goes none Evaluator.checkDepth Evaluator.checkDepth
  -- scopes that fit
  fitsLater : ∀ {heap heap' c}, T.Fits heap c → (T.lasting → heap.Extends heap') → T.Fits heap' c
  fitsInside : ∀ {heap c}, T.Fits heap c →
    T.Fits (heap.addScope (.inside (some c))).1 (heap.addScope (.inside (some c))).2
  -- halts
  ordinary : ∀ {e : RuntimeError}, e.IsOrdinary → T.Matches (.failed e) (.failed e)
  outOfFuel : ∀ {m m'}, T.excuses .outOfFuel → T.Meets m m' → T.Ahead m.sink m'.sink

variable {T} {here : Option ScopeId} {c : ScopeId} {x y : Eval α} {f g : α → Eval β}
  {m m' n n' : Machine}

/-! ## Ways from machines to machines -/

theorem Leads.refl : T.Leads m m' m m' := ⟨rfl, rfl, fun _ => .refl _⟩

theorem Leads.trans {o o' : Machine} (h : T.Leads m m' n n') (h' : T.Leads n n' o o') :
    T.Leads m m' o o' :=
  ⟨h'.left.trans h.left, h'.right.trans h.right, fun hlasting =>
    (h.heap hlasting).trans (h'.heap hlasting)⟩

/-- Nothing is known of the active scopes, which is true of any. -/
theorem Ready.anywhere : T.Ready none m m' := nofun

/-- What is known of the active scopes holds further on, too. -/
theorem Ready.later (hT : T.Lawful) (h : T.Ready here m m') (hleads : T.Leads m m' n n') :
    T.Ready here n n' := by
  rintro c rfl
  obtain ⟨hleft, hright, hfits⟩ := h c rfl
  exact ⟨hleads.left.trans hleft, hleads.right.trans hright, hT.fitsLater hfits hleads.heap⟩

/-- An end may be reached by a way from before. -/
theorem Ends.after {r s : EStateM.Result (Halt RuntimeError) Machine α}
    (hleads : T.Leads m m' n n') (h : T.Ends n n' r s) : T.Ends m m' r s := by
  cases h with
  | ok meets leads => exact .ok meets (hleads.trans leads)
  | error matched meets => exact .error matched meets
  | stopped excused ahead => exact .stopped excused ahead

/-- Both runs change their machines at the end, and leave their sinks alone. -/
theorem Ends.endingOn {r s : EStateM.Result (Halt RuntimeError) Machine α} {f g : Machine → Machine}
    (h : T.Ends n n' r s) (hmeets : ∀ {o o'}, T.Meets o o' → T.Meets (f o) (g o'))
    (hleads : ∀ {o o'}, T.Leads n n' o o' → T.Leads m m' (f o) (g o'))
    (hleft : ∀ o, (f o).sink = o.sink) (hright : ∀ o, (g o).sink = o.sink) :
    T.Ends m m' (endingOn f r) (endingOn g s) := by
  cases h with
  | ok meets leads => exact .ok (hmeets meets) (hleads leads)
  | error matched meets => exact .error matched (hmeets meets)
  | stopped excused ahead =>
    refine .stopped excused ?_
    rw [hleft, final_endingOn, hright]
    exact ahead

/-! ## Staying ahead -/

namespace StaysAhead

/-- Whatever leaves the sink alone. -/
theorem of_sink (h : ∀ m, (y.reached m).sink = m.sink) : T.StaysAhead y := fun _ m hm =>
  (h m).symm ▸ hm

theorem pure (a : α) : T.StaysAhead (pure a) := of_sink fun _ => rfl

theorem throw (halt : Halt RuntimeError) : T.StaysAhead (throw halt : Eval α) :=
  of_sink fun _ => rfl

/-- A sequence stays ahead if both parts do. -/
theorem bind (hy : T.StaysAhead y) (hg : ∀ a, T.StaysAhead (g a)) : T.StaysAhead (y >>= g) := by
  intro stopped m hm
  have hmid := hy stopped m hm
  rw [Eval.reached_bind]
  unfold Eval.reached at hmid
  cases hresult : y m with
  | ok a n =>
    rw [hresult] at hmid
    exact hg a stopped n hmid
  | error halt n =>
    rw [hresult] at hmid
    exact hmid

/-- Induction on the turns that are left. -/
theorem iterate {turn : σ → Eval (Turn σ β)} (n : Nat) (start : σ)
    (hturn : ∀ s, T.StaysAhead (turn s)) : T.StaysAhead (Tao.iterate n turn start) := by
  induction n generalizing start with
  | zero => exact throw _
  | succ n ih =>
    refine (hturn start).bind fun decision => ?_
    cases decision with
    | again next => exact ih next
    | done result => exact pure result

theorem within (hy : T.StaysAhead y) (scope : ScopeId) : T.StaysAhead (Eval.within scope y) := by
  intro stopped m hm
  rw [Eval.reached_within]
  exact hy stopped { m with scope, frames := m.scope :: m.frames } hm

theorem store (f : Store α) : T.StaysAhead (Eval.store f) := by
  refine of_sink fun m => ?_
  unfold Eval.store Eval.reached
  dsimp only
  cases f m.heap <;> rfl

theorem read (f : Heap → Except RuntimeError α) : T.StaysAhead (Eval.read f) := by
  refine of_sink fun m => ?_
  unfold Eval.read Eval.reached
  dsimp only
  cases f m.heap <;> rfl

theorem collectWhen (due : Machine → Bool) : T.StaysAhead (Eval.collectWhen due) := by
  refine of_sink fun m => ?_
  unfold Eval.collectWhen Eval.reached
  dsimp only
  cases due m <;> rfl

/-- The check of the depth writes nothing. -/
theorem checkDepth : T.StaysAhead Evaluator.checkDepth :=
  of_sink fun m => congrArg Machine.sink (Evaluator.reached_checkDepth m)

end StaysAhead

namespace Goes

/-! ## Sequences -/

/-- What goes wherever the runs are goes in a known scope. -/
theorem anywhere (h : T.Goes none x y) : T.Goes here x y :=
  ⟨fun m m' hm _ => h.together m m' hm .anywhere, h.staysAhead⟩

/-- The same result may be given in both. -/
theorem pure (a : α) : T.Goes here (pure a) (pure a) :=
  ⟨fun _ _ hm _ => .ok hm .refl, .pure a⟩

/-- The same halt may end both, as far as those match. -/
theorem halts {halt halt' : Halt RuntimeError} (h : T.Matches halt halt') :
    T.Goes here (throw halt : Eval α) (throw halt') :=
  ⟨fun _ _ hm _ => .error h hm, .throw halt'⟩

/-- The left run stops where both machines meet, for lack of fuel. -/
theorem outOfFuel (hT : T.Lawful) (h : T.excuses .outOfFuel) (hy : T.StaysAhead y) :
    T.Goes here (throw .outOfFuel) y :=
  ⟨fun m m' hm _ => .stopped h (hy m.sink m' (hT.outOfFuel h hm)), hy⟩

/-- Ordinary errors match in all tandems. -/
theorem fail (hT : T.Lawful) {e : RuntimeError} (he : e.IsOrdinary) :
    T.Goes here (Tao.fail e : Eval α) (Tao.fail e) :=
  halts (hT.ordinary he)

/-- Where the first parts end, the second ones begin. -/
theorem ends_bind (hT : T.Lawful) (hready : T.Ready here m m') (hx : T.Ends m m' (x m) (y m'))
    (hf : ∀ a, T.Goes here (f a) (g a)) : T.Ends m m' ((x >>= f) m) ((y >>= g) m') := by
  rw [EStateM.bind_apply, EStateM.bind_apply]
  generalize x m = r at hx
  generalize y m' = s at hx
  cases hx with
  | ok meets leads => exact ((hf _).together _ _ meets (hready.later hT leads)).after leads
  | error matched meets => exact .error matched meets
  | stopped excused ahead =>
    -- the right run goes on alone
    refine .stopped excused ?_
    cases s with
    | ok a n => exact (hf a).staysAhead _ n ahead
    | error halt n => exact ahead

/-- **Sequences.** Wherever the left run stops, the right one stays ahead in what is still to
    come. -/
theorem bind (hT : T.Lawful) (hx : T.Goes here x y) (hf : ∀ a, T.Goes here (f a) (g a)) :
    T.Goes here (x >>= f) (y >>= g) :=
  ⟨fun m m' hm hready => ends_bind hT hready (hx.together m m' hm hready) hf,
    hx.staysAhead.bind fun a => (hf a).staysAhead⟩

theorem bindPure (hT : T.Lawful) (hx : T.Goes here x y) (h : α → β) :
    T.Goes here (do return h (← x)) (do return h (← y)) :=
  hx.bind hT fun _ => pure _

theorem mapM (hT : T.Lawful) {ι : Type} {f g : ι → Eval β} (items : List ι)
    (hf : ∀ item, T.Goes here (f item) (g item)) : T.Goes here (items.mapM f) (items.mapM g) := by
  induction items with
  | nil => exact pure _
  | cons item rest ih =>
    rw [List.mapM_cons, List.mapM_cons]
    exact (hf item).bind hT fun _ => ih.bind hT fun _ => pure _

theorem foldlM (hT : T.Lawful) {ι : Type} {f g : σ → ι → Eval σ} (items : List ι) (start : σ)
    (hf : ∀ s item, T.Goes here (f s item) (g s item)) :
    T.Goes here (items.foldlM f start) (items.foldlM g start) := by
  induction items generalizing start with
  | nil => exact pure _
  | cons item rest ih =>
    rw [List.foldlM_cons, List.foldlM_cons]
    exact (hf start item).bind hT fun next => ih next

theorem forM (hT : T.Lawful) {ι : Type} {f g : ι → Eval PUnit} (items : List ι)
    (hf : ∀ item, T.Goes here (f item) (g item)) : T.Goes here (items.forM f) (items.forM g) := by
  induction items with
  | nil => exact pure _
  | cons item rest ih => exact (hf item).bind hT fun _ => ih

/-- Two loops go together if each two turns do.  Induction on the turns that are left. -/
theorem iterate (hT : T.Lawful) {turn turn' : σ → Eval (Turn σ β)} {n n' : Nat}
    (hbound : T.Bounds n n') (start : σ) (hturn : ∀ s, T.Goes here (turn s) (turn' s)) :
    T.Goes here (Tao.iterate n turn start) (Tao.iterate n' turn' start) := by
  induction n generalizing n' start with
  | zero =>
    rcases hbound with ⟨rfl, hmatches⟩ | ⟨hexcuses, -⟩
    · exact halts hmatches
    · exact outOfFuel hT hexcuses (.iterate n' start fun s => (hturn s).staysAhead)
  | succ n ih =>
    obtain ⟨n', rfl⟩ : ∃ less, n' = less + 1 := by
      rcases hbound with ⟨rfl, -⟩ | ⟨-, hle⟩
      · exact ⟨n, rfl⟩
      · exact ⟨n' - 1, by omega⟩
    have hbound' : T.Bounds n n' :=
      hbound.imp (fun h => ⟨Nat.succ.inj h.1, h.2⟩) fun h => ⟨h.1, Nat.le_of_succ_le_succ h.2⟩
    refine (hturn start).bind hT fun decision => ?_
    cases decision with
    | again next => exact ih hbound' next
    | done result => exact pure result

/-! ## Parts of the machine -/

/-- Both read the same, from the same heap. -/
theorem read (hT : T.Lawful) {f : Heap → Except RuntimeError α} (hf : ∀ heap, Ordinary (f heap)) :
    T.Goes here (Eval.read f) (Eval.read f) := by
  refine ⟨fun m m' hm _ => ?_, .read f⟩
  unfold Eval.read
  rw [← hT.heap hm]
  cases hread : f m.heap with
  | ok a => exact .ok hm .refl
  | error e => exact .error (hT.ordinary (hf _ e hread)) hm

/-- Both take a value for the same. -/
theorem truthy (hT : T.Lawful) (value : Value) :
    T.Goes here (Eval.truthy value) (Eval.truthy value) :=
  read hT fun heap => heap.ordinary_truthy value

/-- What changes one heap changes both alike and loses nothing. -/
theorem store (hT : T.Lawful) {f : Store α} (hf : f.IsSteady) :
    T.Goes here (Eval.store f) (Eval.store f) := by
  refine ⟨fun m m' hm _ => ?_, .store f⟩
  have hsteady := hf m.heap
  unfold Eval.store
  rw [← hT.heap hm]
  cases hstore : f m.heap with
  | ok a heap =>
    rw [hstore] at hsteady
    exact .ok (hT.setHeap hm hsteady) ⟨rfl, rfl, fun _ => hsteady⟩
  | error e heap =>
    rw [hstore] at hsteady
    exact .error (hT.ordinary hsteady.2) (hT.setHeap hm hsteady.1)

/-- A new cell gets the same handle in both. -/
theorem make (hT : T.Lawful) {f : Heap → Heap × α}
    (hf : ∀ heap : Heap, heap.Extends (f heap).1) :
    T.Goes here (Eval.make f) (Eval.make f) := by
  refine ⟨fun m m' hm _ => ?_, .of_sink fun _ => rfl⟩
  unfold Eval.make
  rw [← hT.heap hm]
  exact .ok (hT.setHeap hm (hf m.heap)) ⟨rfl, rfl, fun _ => hf m.heap⟩

theorem freshStamp (hT : T.Lawful) : T.Goes here Eval.freshStamp Eval.freshStamp := by
  refine ⟨fun m m' hm _ => ?_, .of_sink fun _ => rfl⟩
  unfold Eval.freshStamp
  rw [← hT.stamps hm]
  have hstamped := hT.stamped hm
  rw [← hT.stamps hm] at hstamped
  exact .ok hstamped ⟨rfl, rfl, fun _ => .refl _⟩

/-- Calls are checked alike at one depth and one limit. -/
theorem checkDepth (hdepth : ∀ {m m'}, T.Meets m m' → m.depth = m'.depth)
    (hlimit : ∀ {m m'}, T.Meets m m' → m.config.maxCallDepth = m'.config.maxCallDepth)
    (hdeep : ∀ limit, T.Matches (.failed (.callsTooDeep limit)) (.failed (.callsTooDeep limit))) :
    T.Goes here Evaluator.checkDepth Evaluator.checkDepth := by
  refine ⟨fun m m' hm _ => ?_, .checkDepth⟩
  unfold Evaluator.checkDepth
  rw [← hdepth hm, ← hlimit hm]
  by_cases hmany : m.config.maxCallDepth ≤ m.depth
  · rw [if_pos hmany, if_pos hmany]
    exact .error (hdeep _) hm
  · rw [if_neg hmany, if_neg hmany]
    exact .ok hm .refl

/-- A text is written to the same sink by both runs. -/
theorem write {text : String} (hsink : ∀ {m m'}, T.Meets m m' → m.sink = m'.sink)
    (hset : ∀ {m m' sink}, T.Meets m m' → sink.failsFlush = m.sink.failsFlush →
      T.Meets { m with sink } { m' with sink })
    (hfull : T.Matches (.failed .sinkFull) (.failed .sinkFull))
    (hahead : T.StaysAhead (Eval.write text)) :
    T.Goes here (Eval.write text) (Eval.write text) := by
  refine ⟨fun m m' hm _ => ?_, hahead⟩
  rw [Eval.write_apply, Eval.write_apply, ← hsink hm]
  by_cases hempty : text.isEmpty = true
  · rw [if_pos hempty, if_pos hempty]
    exact .ok hm .refl
  · rw [if_neg hempty, if_neg hempty]
    by_cases hfits : m.sink.fits text = true
    · rw [if_pos hfits, if_pos hfits]
      exact .ok (hset hm rfl) ⟨rfl, rfl, fun _ => .refl _⟩
    · rw [if_neg hfits, if_neg hfits]
      exact .error hfull hm

/-- Both runs know the scope that they are in. -/
theorem bindActiveScope {f g : ScopeId → Eval β} (hf : ∀ c, T.Goes (some c) (f c) (g c)) :
    T.Goes (some c) (Eval.activeScope >>= f) (Eval.activeScope >>= g) := by
  have hsink : T.StaysAhead Eval.activeScope := .of_sink fun _ => rfl
  refine ⟨fun m m' hm hready => ?_, hsink.bind fun c => (hf c).staysAhead⟩
  obtain ⟨hleft, hright, -⟩ := hready c rfl
  show T.Ends m m' (f m.scope m) (g m'.scope m')
  rw [hleft, hright]
  exact (hf c).together m m' hm hready

/-! ## Values held -/

/-- Values that are alike may be held. -/
theorem keep (hT : T.Lawful) (value : Value) : T.Goes here (Eval.keep value) (Eval.keep value) :=
  ⟨fun _ _ hm _ => .ok (hT.setHeld (hT.heldCons (hT.held hm) value) hm)
    ⟨rfl, rfl, fun _ => .refl _⟩, .of_sink fun _ => rfl⟩

theorem kept (hT : T.Lawful) {x y : Eval Value} (hx : T.Goes here x y) :
    T.Goes here (Eval.kept x) (Eval.kept y) :=
  hx.bind hT fun value => (keep hT value).bind hT fun _ => pure value

theorem setHeld (hT : T.Lawful) {us vs : List Value} (h : T.HeldAlike us vs) :
    T.Goes here (Eval.setHeld us) (Eval.setHeld vs) :=
  ⟨fun _ _ hm _ => .ok (hT.setHeld h hm) ⟨rfl, rfl, fun _ => .refl _⟩, .of_sink fun _ => rfl⟩

/-- What comes after a mark was set in both runs. -/
theorem bindHeld (hT : T.Lawful) {f g : List Value → Eval β}
    (hf : ∀ us vs, T.HeldAlike us vs → T.Goes here (f us) (g vs)) :
    T.Goes here (Eval.held >>= f) (Eval.held >>= g) := by
  have hsink : T.StaysAhead Eval.held := .of_sink fun _ => rfl
  refine ⟨fun m m' hm hready => (hf _ _ (hT.held hm)).together m m' hm hready,
    hsink.bind fun vs => ?_⟩
  obtain ⟨us, hheld⟩ := hT.heldTotal vs
  exact (hf us vs hheld).staysAhead

/-- What was held before is alike and is held again. -/
theorem lettingGo (hT : T.Lawful) (hx : T.Goes here x y) :
    T.Goes here (Eval.lettingGo x) (Eval.lettingGo y) := by
  refine ⟨fun m m' hm hready => ?_, fun stopped m' hm => ?_⟩
  · rw [Eval.lettingGo_endingOn, Eval.lettingGo_endingOn]
    exact (hx.together m m' hm hready).endingOn (hT.setHeld (hT.held hm))
      (fun leads => ⟨leads.left, leads.right, leads.heap⟩) (fun _ => rfl) fun _ => rfl
  · rw [Eval.reached_lettingGo]
    exact hx.staysAhead stopped m' hm

/-! ## Scopes and calls under way -/

theorem deeper (hT : T.Lawful) (hx : T.Goes here x y) :
    T.Goes here (Eval.deeper x) (Eval.deeper y) := by
  refine ⟨fun m m' hm hready => ?_, fun stopped m' hm => ?_⟩
  · rw [Eval.deeper_endingOn, Eval.deeper_endingOn]
    exact (hx.together _ _ (hT.deepen hm) hready).endingOn (hT.surface hm)
      (fun leads => ⟨leads.left, leads.right, leads.heap⟩) (fun _ => rfl) fun _ => rfl
  · rw [Eval.reached_deeper]
    exact hx.staysAhead stopped { m' with depth := m'.depth + 1 } hm

/-- Entering a scope that fits. -/
theorem ends_within (hT : T.Lawful) {scope : ScopeId} (hm : T.Meets m m')
    (hfits : T.Fits m.heap scope) (hx : T.Goes (some scope) x y) :
    T.Ends m m' (Eval.within scope x m) (Eval.within scope y m') := by
  have hready : T.Ready (some scope) { m with scope, frames := m.scope :: m.frames }
      { m' with scope, frames := m'.scope :: m'.frames } := by
    rintro _ ⟨⟩
    exact ⟨rfl, rfl, hfits⟩
  rw [Eval.within_endingOn, Eval.within_endingOn]
  exact (hx.together _ _ (hT.enter hm scope) hready).endingOn (hT.leave hm)
    (fun leads => ⟨rfl, rfl, leads.heap⟩) (fun _ => rfl) fun _ => rfl

/-- A scope that is made and entered at once: it fits when it is new. -/
theorem inNewScope (hT : T.Lawful) {scope : Scope} {x y : ScopeId → Eval α}
    {f g : ScopeId → α → Eval β}
    (hfits : ∀ m m', T.Meets m m' → T.Ready here m m' →
      T.Fits (m.heap.addScope scope).1 (m.heap.addScope scope).2)
    (hx : ∀ child, T.Goes (some child) (x child) (y child))
    (hf : ∀ child a, T.Goes here (f child a) (g child a)) :
    T.Goes here
      (do
        let child ← Eval.make (·.addScope scope)
        let a ← Eval.within child (x child)
        f child a)
      (do
        let child ← Eval.make (·.addScope scope)
        let a ← Eval.within child (y child)
        g child a) := by
  have hmake : T.Goes here (Eval.make (·.addScope scope)) (Eval.make (·.addScope scope)) :=
    make hT fun heap => .addScope heap scope
  have hafter : ∀ child, T.StaysAhead (do let a ← Eval.within child (y child); g child a) :=
    fun child => (((hx child).staysAhead).within child).bind fun a => (hf child a).staysAhead
  refine ⟨fun m m' hm hready => ?_, hmake.staysAhead.bind hafter⟩
  let n : Machine := { m with heap := (m.heap.addScope scope).1 }
  let n' : Machine := { m' with heap := (m'.heap.addScope scope).1 }
  have hextends : m.heap.Extends n.heap := .addScope m.heap scope
  have hmeets : T.Meets n n' := by
    show T.Meets n { m' with heap := (m'.heap.addScope scope).1 }
    rw [← hT.heap hm]
    exact hT.setHeap hm hextends
  have hleads : T.Leads m m' n n' := ⟨rfl, rfl, fun _ => hextends⟩
  have hwithin := ends_within hT hmeets (hfits m m' hm hready) (hx (m.heap.addScope scope).2)
  have hchild : (m'.heap.addScope scope).2 = (m.heap.addScope scope).2 := by rw [hT.heap hm]
  refine Ends.after hleads ?_
  show T.Ends n n'
    ((Eval.within (m.heap.addScope scope).2 (x (m.heap.addScope scope).2) >>=
      f (m.heap.addScope scope).2) n)
    ((Eval.within (m'.heap.addScope scope).2 (y (m'.heap.addScope scope).2) >>=
      g (m'.heap.addScope scope).2) n')
  rw [hchild]
  exact ends_bind hT (hready.later hT hleads) hwithin (hf _)

/-- A scope inside of the active one. -/
theorem nested (hT : T.Lawful) {x y : ScopeId → Eval α} {f g : ScopeId → α → Eval β}
    (hx : ∀ child, T.Goes (some child) (x child) (y child))
    (hf : ∀ child a, T.Goes (some c) (f child a) (g child a)) :
    T.Goes (some c)
      (do
        let child ← Eval.newScope c
        let a ← Eval.within child (x child)
        f child a)
      (do
        let child ← Eval.newScope c
        let a ← Eval.within child (y child)
        g child a) :=
  inNewScope hT (fun _ _ _ hready => hT.fitsInside (hready c rfl).2.2) hx hf

/-- A scope inside of the active one with nothing to be done afterwards. -/
theorem onlyNested (hT : T.Lawful) {x y : ScopeId → Eval α}
    (hx : ∀ child, T.Goes (some child) (x child) (y child)) :
    T.Goes (some c) (do let child ← Eval.newScope c; Eval.within child (x child))
      (do let child ← Eval.newScope c; Eval.within child (y child)) := by
  have hnested := nested (c := c) hT (f := fun _ => Pure.pure) (g := fun _ => Pure.pure) hx
    fun _ a => pure a
  simpa only [bind_pure] using hnested

end Goes

end Tandem

end Tao
