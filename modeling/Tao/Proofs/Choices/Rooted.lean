/-
  What is held keeps its identity.

  Containers are told apart by their handles, functions and methods by their stamps.  A value is
  KNOWN to a machine if its handle resolves there, or its stamp was given out; what a machine makes
  is not known to it before, so it is none of the values that are (`Machine.Makes.not_same`).

  A held value stays known, however often garbage is collected in the meantime: under a watch that
  looks for it after each collection, no alarm is ever raised.  The runs with and without that watch
  are both compared with one that holds nothing and whose collector is given the value.
-/
import Tao.Proofs.Tandem.Held

namespace Tao

/-! ## Known values -/

/-- The stamp of a method. -/
def Builtin.stamp? : Builtin → Option Nat
  | .arrayMethod stamp _ _ | .stringMethod stamp _ _ => some stamp
  | .print | .println | .len => none

/-- Is this container there, or was this function or method made before so many stamps were given
    out?  Anything else is always known. -/
def Value.isKnown (heap : Heap) (stamps : Nat) : Value → Bool
  | .object id => (heap.objects.get? id).isSome
  | .array id => (heap.arrays.get? id).isSome
  | .function closure => closure.stamp < stamps
  | .builtin method => method.stamp?.all (· < stamps)
  | _ => true

/-- The same values are known. -/
theorem Value.isKnown_of_same {u v : Value} (h : u.same v = true) (heap : Heap) (stamps : Nat) :
    u.isKnown heap stamps = v.isKnown heap stamps := by
  unfold same at h
  split at h
  case h_7 a b =>
    have hstamp : a.stamp = b.stamp := of_decide_eq_true h
    exact congrArg (fun stamp => decide (stamp < stamps)) hstamp
  case h_10 => cases h
  all_goals first | rfl | rw [of_decide_eq_true h]

/-- What a machine makes next: containers, functions, and methods taken from their receivers. -/
inductive Machine.Makes (m : Machine) : Value → Prop where
  | object (cell : ObjectCell) : Makes m (.object (m.heap.addObject cell).2)
  | array (cell : ArrayCell) : Makes m (.array (m.heap.addArray cell).2)
  | function (code : FunctionCode) (scope : ScopeId) : Makes m (.function ⟨m.stamps, code, scope⟩)
  | arrayMethod (method : ArrayMethod) (receiver : ArrayId) :
    Makes m (.builtin (.arrayMethod m.stamps method receiver))
  | stringMethod (method : StringMethod) (receiver : String) :
    Makes m (.builtin (.stringMethod m.stamps method receiver))

/-- A new handle does not resolve before, and a new stamp was not given out. -/
theorem Machine.Makes.isKnown_eq_false {m : Machine} {value : Value} (h : m.Makes value)
    (hwf : m.heap.WellFormed) : value.isKnown m.heap m.stamps = false := by
  cases h with
  | object cell => exact congrArg Option.isSome (Arena.get?_new hwf.objects cell)
  | array cell => exact congrArg Option.isSome (Arena.get?_new hwf.arrays cell)
  | function => exact decide_eq_false (Nat.lt_irrefl _)
  | arrayMethod => exact decide_eq_false (Nat.lt_irrefl _)
  | stringMethod => exact decide_eq_false (Nat.lt_irrefl _)

/-- What a machine makes is none of the values that it knows. -/
theorem Machine.Makes.not_same {m : Machine} {made known : Value} (h : m.Makes made)
    (hwf : m.heap.WellFormed) (hknown : known.isKnown m.heap m.stamps = true) :
    made.same known = false := by
  refine Bool.eq_false_iff.2 fun hsame => ?_
  have hmade := h.isKnown_eq_false hwf
  rw [Value.isKnown_of_same hsame, hknown] at hmade
  cases hmade

namespace Tandem

/-! ## Tandems with an invariant -/

/-- The same comparison of runs where, besides, something is true of the right one's heap and of the
    number of stamps that it has given out. -/
def also (T : Tandem) (Q : Heap → Nat → Prop) : Tandem :=
  { T with Meets := fun m m' => T.Meets m m' ∧ Q m'.heap m'.stamps }

variable {T : Tandem} {Q : Heap → Nat → Prop} {here : Option ScopeId} {α : Type} {x y : Eval α}

/-- Runs that go together keep an invariant of the right one if that run keeps it by itself. -/
theorem Goes.also (h : T.Goes here x y)
    (hy : ∀ m, Q m.heap m.stamps → Q (y.reached m).heap (y.reached m).stamps) :
    (T.also Q).Goes here x y := by
  refine ⟨fun m m' hm hready => ?_, h.staysAhead⟩
  have hends := h.together m m' hm.1 hready
  have hlater := hy m' hm.2
  unfold Eval.reached at hlater
  generalize x m = r at hends
  generalize y m' = s at hends hlater
  cases hends with
  | ok meets leads => exact .ok ⟨meets, hlater⟩ ⟨leads.left, leads.right, leads.heap⟩
  | error matched meets => exact .error matched ⟨meets, hlater⟩
  | stopped excused ahead => exact .stopped excused ahead

/-- An invariant that growing heaps and new stamps keep may be added to any lawful comparison. -/
theorem lawful_also (hT : T.Lawful)
    (hheap : ∀ {before after stamps}, Q before stamps → before.Extends after → Q after stamps)
    (hstamp : ∀ {heap stamps}, Q heap stamps → Q heap (stamps + 1)) : (T.also Q).Lawful where
  heap hm := hT.heap hm.1
  root hm := hT.root hm.1
  entryPoint hm := hT.entryPoint hm.1
  stamps hm := hT.stamps hm.1
  setHeap hm hextends := ⟨hT.setHeap hm.1 hextends, hheap hm.2 (hT.heap hm.1 ▸ hextends)⟩
  stamped hm := ⟨hT.stamped hm.1, hstamp hm.2⟩
  heldTotal := hT.heldTotal
  heldCons := hT.heldCons
  held hm := hT.held hm.1
  setHeld hheld hm := ⟨hT.setHeld hheld hm.1, hm.2⟩
  enter hm scope := ⟨hT.enter hm.1 scope, hm.2⟩
  leave hm hn := ⟨hT.leave hm.1 hn.1, hn.2⟩
  deepen hm := ⟨hT.deepen hm.1, hm.2⟩
  surface hm hn := ⟨hT.surface hm.1 hn.1, hn.2⟩
  checkDepth := hT.checkDepth.also fun m hm => by rwa [Evaluator.reached_checkDepth]
  fitsLater := hT.fitsLater
  fitsInside := hT.fitsInside
  ordinary := hT.ordinary
  outOfFuel hexcuses hm := hT.outOfFuel hexcuses hm.1

end Tandem

/-! ## Held values stay known -/

/-- Collects garbage as usual, and raises the alarm if this value is no longer known. -/
def Eval.collectSparing (value : Value) (alarm : Halt RuntimeError) : Eval Unit := do
  Eval.collectIfGrown
  Eval.require (fun m => value.isKnown m.heap m.stamps = true) alarm

/-- A well-formed heap in which this value is known. -/
def Heap.Knows (value : Value) (heap : Heap) (stamps : Nat) : Prop :=
  heap.WellFormed ∧ value.isKnown heap stamps = true

/-- Whatever happens to the heap, it is enough that the cell that the value refers to is kept. -/
theorem Heap.Knows.later {value : Value} {heap after : Heap} {stamps stamps' : Nat}
    (h : heap.Knows value stamps) (hwf : after.WellFormed) (hle : stamps ≤ stamps')
    (hkept : ∀ node, value.RefersTo node → heap.Resolves node → after.Resolves node) :
    after.Knows value stamps' := by
  refine ⟨hwf, ?_⟩
  have hknown := h.2
  cases value with
  | object id =>
    have hthere := hkept _ (.object id) (Option.isSome_iff_exists.1 hknown)
    exact Option.isSome_iff_exists.2 hthere
  | array id =>
    have hthere := hkept _ (.array id) (Option.isSome_iff_exists.1 hknown)
    exact Option.isSome_iff_exists.2 hthere
  | function closure =>
    have hlt : closure.stamp < stamps := of_decide_eq_true hknown
    exact decide_eq_true (Nat.lt_of_lt_of_le hlt hle)
  | builtin method =>
    unfold Value.isKnown at hknown ⊢
    dsimp only at hknown ⊢
    cases hstamp : method.stamp? with
    | none => rfl
    | some stamp =>
      rw [hstamp] at hknown
      have hlt : stamp < stamps := of_decide_eq_true hknown
      exact decide_eq_true (Nat.lt_of_lt_of_le hlt hle)
  | _ => rfl

namespace Tandem

variable {m : Machine} {value : Value} {below : List Value}

/-- The left run holds the values `below` beneath whatever the right one holds, and knows one of
    them. -/
def knowing (below : List Value) (value : Value) : Tandem :=
  (rooting below fun _ => False).also (Heap.Knows value)

/-- Growing heaps lose no cell and stamps only grow, so a known value stays known. -/
theorem lawful_knowing (below : List Value) (value : Value) : (knowing below value).Lawful := by
  refine lawful_also lawful_rooting (fun hknows hextends => ?_) fun hknows => ?_
  · obtain ⟨hwf, -, hkept⟩ := hextends hknows.1
    exact hknows.later hwf (Nat.le_refl _) fun node _ => hkept node
  · exact hknows.later hknows.1 (Nat.le_succ _) fun _ _ => id

/-- A collector that is given the value as a root keeps it known. -/
theorem knows_reached_collectAlso (hvalue : value ∈ below) (m : Machine)
    (h : m.heap.Knows value m.stamps) :
    ((Eval.collectAlso below).reached m).heap.Knows value
      ((Eval.collectAlso below).reached m).stamps := by
  unfold Eval.reached Eval.collectAlso
  dsimp only
  by_cases hsmall : m.heap.live ≤ m.nextGc
  · rw [if_pos hsmall]
    exact h
  · rw [if_neg hsmall]
    refine h.later (h.1.collected _ _) (Nat.le_refl _) fun node hrefers hnode => ?_
    exact Heap.resolves_collected (.value (List.mem_append_right _ hvalue) hrefers hnode)

/-- The usual collection on the left goes with one on the right that has the held values among its
    roots. -/
theorem goes_collect_knowing (hvalue : value ∈ below) (c : ScopeId) :
    (knowing below value).Goes (some c) Eval.collectIfGrown (Eval.collectAlso below) :=
  (goes_collect_rooting nofun).also (knows_reached_collectAlso hvalue)

/-- The alarm is not raised, since the right run still knows the value. -/
theorem goes_collectSparing (hvalue : value ∈ below) (alarm : Halt RuntimeError) (c : ScopeId) :
    (knowing below value).Goes (some c) (Eval.collectSparing value alarm)
      (Eval.collectAlso below) := by
  rw [← bind_pure (Eval.collectAlso below)]
  refine (goes_collect_knowing hvalue c).bind (lawful_knowing below value) fun _ => ?_
  refine ⟨fun m m' hm hready => ?_, .pure _⟩
  have hheap := (lawful_knowing below value).heap hm
  have hstamps := (lawful_knowing below value).stamps hm
  have hknown : value.isKnown m.heap m.stamps = true := by
    rw [hheap, hstamps]
    exact hm.2.2
  have hrequire : Eval.require (fun m => value.isKnown m.heap m.stamps = true) alarm m =
      .ok () m := if_pos hknown
  rw [hrequire]
  exact .ok hm .refl

/-- Printing is the same on both sides, and makes nothing unknown. -/
theorem goes_write_knowing (text : String) :
    (knowing below value).Goes none (Eval.write text) (Eval.write text) := by
  refine (goes_write_rooting text).also fun m h => ?_
  unfold Eval.reached
  rw [Eval.write_apply]
  split_ifs <;> exact h

/-- Two left runs that go with one right run are the same. -/
theorem eq_of_goes_knowing {x x' y : Eval α} {c : ScopeId}
    (h : (knowing below value).Goes (some c) x y) (h' : (knowing below value).Goes (some c) x' y)
    {m m' : Machine} (hm : (knowing below value).Meets m m')
    (hready : (knowing below value).Ready (some c) m m') : x m = x' m := by
  have hends := h.together m m' hm hready
  have hends' := h'.together m m' hm hready
  generalize x m = r at hends
  generalize x' m = r' at hends'
  generalize y m' = s at hends hends'
  cases hends with
  | ok meets =>
    cases hends' with
    | ok meets' => rw [meets.1.1, meets'.1.1]
    | stopped excused => exact excused.elim
  | error matched meets =>
    cases hends' with
    | error matched' meets' =>
      obtain rfl := matched.trans matched'.symm
      rw [meets.1.1, meets'.1.1]
    | stopped excused => exact excused.elim
  | stopped excused => exact excused.elim

/-- The run that what a machine holds is compared with. -/
theorem runs_knowing (hvalue : value ∈ below) (n : Nat) :
    (knowing below value).Runs (Evaluator.ofFuel n)
      (Evaluator.watched (.doing (Eval.collectAlso below) Eval.write) n) := by
  rw [← Evaluator.watched_doing_usual]
  exact runs_doing (lawful_knowing below value) (fun _ _ => trivial) (goes_collect_knowing hvalue)
    goes_write_knowing (.inl ⟨rfl, rfl⟩)

/-- A run that looks for the value after each collection goes with the same right run. -/
theorem runs_sparing (hvalue : value ∈ below) (alarm : Halt RuntimeError) (n : Nat) :
    (knowing below value).Runs
      (Evaluator.watched (.doing (Eval.collectSparing value alarm) Eval.write) n)
      (Evaluator.watched (.doing (Eval.collectAlso below) Eval.write) n) :=
  runs_doing (lawful_knowing below value) (fun _ _ => trivial) (goes_collectSparing hvalue alarm)
    goes_write_knowing (.inl ⟨rfl, rfl⟩)

/-- To begin with, the right run is the left one with nothing held. -/
theorem meets_knowing (hknows : m.heap.Knows value m.stamps) :
    (knowing m.held value).Meets m { m with held := [] } :=
  ⟨⟨rfl, hknows.1, fun _ => False.elim⟩, hknows⟩

/-- The right run holds the rest beneath whatever is held from now on. -/
theorem ready_knowing (m : Machine) :
    (knowing below value).Ready (some m.scope) m { m with held := [] } := by
  rintro _ ⟨⟩
  exact ⟨rfl, rfl, trivial⟩

end Tandem

namespace Evaluator

variable {m : Machine} {value : Value}

/-- A value that is held stays known while the labels of a choice are evaluated: no collection in
    the meantime loses it. -/
theorem chosenGroup_sparing (hheld : value ∈ m.held) (hknows : m.heap.Knows value m.stamps)
    (n : Nat) (subject : Value) (groups : List CaseGroup) (alarm : Halt RuntimeError) :
    (watched (.doing (Eval.collectSparing value alarm) Eval.write) n).chosenGroup subject groups m =
      (ofFuel n).chosenGroup subject groups m := by
  have hT := Tandem.lawful_knowing m.held value
  exact Tandem.eq_of_goes_knowing
    ((Tandem.runs_sparing hheld alarm n).chosenGroup hT subject groups)
    ((Tandem.runs_knowing hheld n).chosenGroup hT subject groups)
    (Tandem.meets_knowing hknows) (Tandem.ready_knowing m)

/-- It is still held and known when an expression has been evaluated. -/
theorem knows_of_evaluate {e : Expression} {n : Nat} {found : Value} {next : Machine}
    (hheld : value ∈ m.held) (hknows : m.heap.Knows value m.stamps)
    (h : (ofFuel n).evaluate e m = .ok found next) :
    value ∈ next.held ∧ next.heap.Knows value next.stamps := by
  have hends := ((Tandem.runs_knowing hheld n).evaluate m.scope e).together _ _
    (Tandem.meets_knowing hknows) (Tandem.ready_knowing m)
  rw [h] at hends
  generalize (watched _ n).evaluate e { m with held := [] } = s at hends
  cases hends with
  | ok meets =>
    have hheap := (Tandem.lawful_knowing m.held value).heap meets
    have hstamps := (Tandem.lawful_knowing m.held value).stamps meets
    refine ⟨?_, ?_⟩
    · rw [meets.1.1]
      exact List.mem_append_right _ hheld
    · rw [hheap, hstamps]
      exact meets.2

end Evaluator

end Tao
