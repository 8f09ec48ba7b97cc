/-
  Garbage collection cannot be observed, except through stale handles.

  Two runs of a script that differ in the threshold of the first collection collect at different
  pauses.  They print the same text and give the same result, as long as neither of them ever
  follows a handle to a cell that a collection has freed, and no slot runs through all its
  generations.  Both are asked of a run by a watch (`steady`).

  A run can meet a stale handle: a method that visits the elements of an array keeps an element
  alive only once the function that it called with it has returned.  If that function takes the
  element off the array, and a collection strikes before it returns, the element is gone.
-/
import Mathlib
import Tao.Proofs.Lockstep.Renaming

namespace Tao

/-! ## What is asked of a run -/

/-- Runs `x`.  Raises the alarm in the place of a failure by a stale handle. -/
def Eval.alarming {α : Type} (alarm : Halt RuntimeError) (x : Eval α) : Eval α := fun m =>
  match x m with
  | .ok a m => .ok a m
  | .error .outOfFuel m => .error .outOfFuel m
  | .error (.failed e) m => if e.category = .internal then .error alarm m else .error (.failed e) m

/-- May every slot of the heap be emptied once more? -/
def Heap.renewable (heap : Heap) : Bool :=
  heap.scopes.renewable && heap.objects.renewable && heap.arrays.renewable

/-- The watch that raises the alarm when a call follows a stale handle, and at a pause at which a
    slot has reached its last generation. -/
def Watch.steady (alarm : Halt RuntimeError) (w : Watch) : Watch :=
  { w with
    pause := do
      Eval.require (·.heap.renewable = true) alarm
      w.pause
    call := fun callee arguments x => Eval.alarming alarm (w.call callee arguments x) }

/-- Does a reading follow a stale handle? -/
def FailsStale {α : Type} (x : Except RuntimeError α) : Prop :=
  ∃ e, x = .error e ∧ e.category = .internal

/-- A run that never follows a stale handle, nor does whoever looks at its result, and in which no
    slot has reached its last generation at a pause: emptied once more, such a slot would begin
    again with its first one, and a handle given out before would not be stale any more.  `steady`
    asks for both. -/
structure Program.NeverStale (program : Program) (fuel : Nat) (m : Machine) : Prop where
  steady : ∀ alarm,
    program.runWatched (.steady alarm (.idle Machine.hasGrown)) fuel m = program.run fuel m
  result : ∀ e m', program.run fuel m = .error (.failed e) m' → e.category ≠ .internal
  display : ∀ value m', program.run fuel m = .ok value m' → ¬ FailsStale (m'.heap.display value)
  truthy : ∀ value m', program.run fuel m = .ok value m' → ¬ FailsStale (m'.heap.truthy value)

/-- A run that ends, that is, one that has enough fuel. -/
def Program.Ends (program : Program) (fuel : Nat) (m : Machine) : Prop :=
  ∀ m', program.run fuel m ≠ .error .outOfFuel m'

/-- Two runs end in the same way, as far as can be told from outside: with the same text in the
    sink, and with the same error or with values of the same type, text and truth. -/
inductive SameOutcome : EStateM.Result (Halt RuntimeError) Machine Value →
    EStateM.Result (Halt RuntimeError) Machine Value → Prop where
  | ok {u v : Value} {m m' : Machine} (sink : m.sink = m'.sink) (type : u.type = v.type)
    (display : m.heap.display u = m'.heap.display v)
    (truthy : m.heap.truthy u = m'.heap.truthy v) : SameOutcome (.ok u m) (.ok v m')
  | error {e : RuntimeError} {m m' : Machine} (sink : m.sink = m'.sink) :
    SameOutcome (.error (.failed e) m) (.error (.failed e) m')

/-! ## Collecting on both sides -/

namespace Renaming

variable {j : Joint}

/-- What a pause does to a machine: cells may be freed, and the next collection is due at another
    time. -/
theorem exists_collectWhen (due : Machine → Bool) {m : Machine} (hwf : m.heap.WellFormed)
    (hrenewable : m.heap.renewable = true) :
    ∃ heap nextGc, Eval.collectWhen due m = .ok () { m with heap, nextGc } ∧
      m.heap.scopes.Shrinks heap.scopes ∧ m.heap.objects.Shrinks heap.objects ∧
      m.heap.arrays.Shrinks heap.arrays := by
  obtain ⟨hscopes, harrays⟩ := Bool.and_eq_true_iff.1 hrenewable
  obtain ⟨hscopes, hobjects⟩ := Bool.and_eq_true_iff.1 hscopes
  unfold Eval.collectWhen
  by_cases hdue : due m = true
  · refine ⟨m.heap.collected m.roots m.held, _, if_pos hdue, ?_, ?_, ?_⟩
    · exact Arena.shrinks_sweep hwf.scopes hscopes _
    · exact Arena.shrinks_sweep hwf.objects hobjects _
    · exact Arena.shrinks_sweep hwf.arrays harrays _
  · exact ⟨m.heap, m.nextGc, if_neg hdue, .refl hwf.scopes, .refl hwf.objects, .refl hwf.arrays⟩

/-- Both sides may collect at any pause, for themselves. -/
theorem steps_collectWhen (due due' : Machine → Bool) (hs : Sound j)
    (hleft : j.left.heap.renewable = true) (hright : j.right.heap.renewable = true) :
    regime.Steps true j (Eval.collectWhen due) (Eval.collectWhen due') fun _ _ _ => True := by
  have hscopes := hs.heaps.scopes.wellFormed
  have hobjects := hs.heaps.objects.wellFormed
  have harrays := hs.heaps.arrays.wellFormed
  obtain ⟨heap, nextGc, heq, hscopesL, hobjectsL, harraysL⟩ :=
    exists_collectWhen due ⟨hscopes.1, hobjects.1, harrays.1⟩ hleft
  obtain ⟨heap', nextGc', heq', hscopesR, hobjectsR, harraysR⟩ :=
    exists_collectWhen due' ⟨hscopes.2, hobjects.2, harrays.2⟩ hright
  have hheaps : Heap.Twins j.pairing heap heap' :=
    ⟨hs.heaps.scopes.shrink hscopesL hscopesR, hs.heaps.objects.shrink hobjectsL hobjectsR,
      hs.heaps.arrays.shrink harraysL harraysR,
      hs.heaps.founded.1.shrink hscopesL, hs.heaps.founded.2.shrink hscopesR⟩
  have hnow : regime.Sound ⟨j.pairing, { j.left with heap, nextGc },
      { j.right with heap := heap', nextGc := nextGc' }⟩ :=
    Sound.mk hheaps hs.scope hs.root hs.frames hs.maxCallDepth hs.entryPoint hs.sink hs.depth
      hs.stamps
  unfold Regime.Steps
  rw [heq, heq']
  have hleads : regime.Leads true j ⟨j.pairing, { j.left with heap, nextGc },
      { j.right with heap := heap', nextGc := nextGc' }⟩ :=
    ⟨⟨rfl, rfl⟩, fun _ _ h => ⟨h.alike, h.kept⟩, fun _ _ h => ⟨h.paired, h.kept⟩,
      fun _ => ⟨rfl, rfl⟩⟩
  exact .ok hnow hleads trivial

/-- Alarms on both sides: a lack of fuel is an excuse, too. -/
theorem steps_alarming {exact : Bool} {x y : Eval Value} {post : Joint → Value → Value → Prop}
    (h : regime.Steps exact j x y post) :
    regime.Steps exact j (Eval.alarming .outOfFuel x) (Eval.alarming .outOfFuel y) post := by
  unfold Regime.Steps at h ⊢
  unfold Eval.alarming
  generalize x j.left = r at h
  generalize y j.right = s at h
  cases h with
  | ok sound leads holds => exact .ok sound leads holds
  | error admitted fault =>
    obtain ⟨e, rfl, he⟩ := admitted
    dsimp only
    rw [if_neg he, if_neg he]
    have hadmitted : regime.admits (.failed e) := ⟨e, rfl, he⟩
    exact .error hadmitted fault
  | left excused =>
    rcases excused with rfl | ⟨e, rfl, he⟩
    · exact .left (.inl rfl)
    · dsimp only
      rw [if_pos he]
      exact .left (.inl rfl)
  | right excused =>
    rcases excused with rfl | ⟨e, rfl, he⟩
    · exact .right (.inl rfl)
    · dsimp only
      rw [if_pos he]
      exact .right (.inl rfl)

/-- Two watches that pause at different times agree on everything else. -/
theorem agree (due due' : Machine → Bool) :
    Watch.Agree regime (.steady .outOfFuel (.idle due)) (.steady .outOfFuel (.idle due')) where
  pause hs := .require (.inl rfl) (.inl rfl) (steps_collectWhen due due' hs)
  evaluate _ _ h := h
  execute _ _ h := h
  call _ _ h := steps_alarming (h (.inl trivial))
  callBack _ _ h := h (.inl trivial)

/-! ## Whole runs -/

/-- New machines that differ in the threshold of the first collection. -/
theorem sound_start (config : Config) (threshold threshold' : Nat) (sink : Sink) :
    ∃ p, Sound ⟨p, .start { config with gcThreshold := threshold } sink,
      .start { config with gcThreshold := threshold' } sink⟩ := by
  have hempty : Heap.Twins ⟨fun _ _ => False, fun _ _ => False, fun _ _ => False⟩ .empty .empty :=
    ⟨Arena.twins_empty, Arena.twins_empty, Arena.twins_empty, Arena.founded_empty,
      Arena.founded_empty⟩
  have hglobal := twins_addObject hempty (c := .mk _) (d := .mk _) (Named.Rel.set (.set (.set (.set
    (.set .nil .print "print") .println "println") .len "len") (.maker .object) "Object")
    (.maker .array) "Array")
  have hroot := twins_addScope hglobal (s := .outermost Heap.empty.addGlobal.2)
    (t := .outermost Heap.empty.addGlobal.2)
    ⟨.cons ⟨rfl, .object (.inr ⟨rfl, rfl⟩)⟩ .nil, .none, rfl, .none⟩
  exact ⟨_, hroot, .inr ⟨rfl, rfl⟩, .inr ⟨rfl, rfl⟩, .nil, rfl, rfl, rfl, rfl, rfl⟩

/-- Only internal errors are excused. -/
theorem internal_of_excuses {e : RuntimeError} (h : Excuses (.failed e)) :
    e.category = .internal := by
  rcases h with hfuel | ⟨e', heq, he⟩
  · cases hfuel
  · cases heq
    exact he

/-- Readings in lockstep are the same if neither follows a stale handle. -/
theorem eq_of_reads {α : Type} {x y : Except RuntimeError α} (h : regime.Reads Eq x y)
    (hx : ¬ FailsStale x) (hy : ¬ FailsStale y) : x = y := by
  cases h with
  | ok holds => rw [holds]
  | error admitted => rfl
  | left excused => exact absurd ⟨_, rfl, internal_of_excuses excused⟩ hx
  | right excused => exact absurd ⟨_, rfl, internal_of_excuses excused⟩ hy

/-- No call under this watch fails by a stale handle: it raises the alarm instead. -/
theorem not_callFails (w : Watch) (n : Nat) {e : RuntimeError} (he : e.category = .internal) :
    ¬ Regime.CallFails (Evaluator.watched (.steady .outOfFuel w) n) e := by
  rintro ⟨callee, arguments, m, m', hcall⟩
  cases n with
  | zero => cases hcall
  | succ n =>
    change Eval.alarming .outOfFuel _ m = _ at hcall
    unfold Eval.alarming at hcall
    split at hcall
    · cases hcall
    · cases hcall
    · rename_i e' m'' _
      by_cases he' : e'.category = .internal
      · rw [if_pos he'] at hcall
        cases hcall
      · rw [if_neg he'] at hcall
        cases hcall
        exact he' he

/-- A run that ends and is `NeverStale` is not excused. -/
theorem not_excused {program : Program} {fuel : Nat} {m m' : Machine} {halt : Halt RuntimeError}
    (hends : program.Ends fuel m) (h : program.NeverStale fuel m)
    (hrun : program.run fuel m = .error halt m') (w : Watch) :
    ¬ Regime.FlushedExcuse Excuses (Evaluator.watched (.steady .outOfFuel w) fuel) halt := by
  rintro ((rfl | ⟨e, rfl, he⟩) | ⟨-, e, hexcuse, hfails⟩)
  · exact hends m' hrun
  · exact h.result e m' hrun he
  · exact not_callFails w fuel (internal_of_excuses hexcuse) hfails

end Renaming

/-- **Garbage collection cannot be observed except through stale handles.**  Take two thresholds of
    the first collection, all other limits being the same, and two runs of a script that both end.
    If neither follows a stale handle, and no slot is at its last generation at a pause of either,
    they end in the same way. -/
theorem Program.collection_unobservable (program : Program) (config : Config)
    (threshold threshold' : Nat) (sink : Sink) (fuel fuel' : Nat)
    (hends : program.Ends fuel (.start { config with gcThreshold := threshold } sink))
    (hends' : program.Ends fuel' (.start { config with gcThreshold := threshold' } sink))
    (h : program.NeverStale fuel (.start { config with gcThreshold := threshold } sink))
    (h' : program.NeverStale fuel' (.start { config with gcThreshold := threshold' } sink)) :
    SameOutcome (program.run fuel (.start { config with gcThreshold := threshold } sink))
      (program.run fuel' (.start { config with gcThreshold := threshold' } sink)) := by
  obtain ⟨p, hs⟩ := Renaming.sound_start config threshold threshold' sink
  have hbound : Renaming.regime.SameBound fuel fuel' := .inr ⟨.inl rfl, .inl rfl⟩
  have hfinishes := Regime.finishes Renaming.signalling
    (Renaming.agree Machine.hasGrown Machine.hasGrown) hbound
    (Statement.allEverywhere_any program.statements) hs
  -- a run that follows no stale handle is the same under the watch that stops at one
  rw [h.steady, h'.steady] at hfinishes
  generalize hrun : program.run fuel (.start { config with gcThreshold := threshold } sink) = r
    at hfinishes
  generalize hrun' : program.run fuel' (.start { config with gcThreshold := threshold' } sink) = r'
    at hfinishes
  cases hfinishes with
  | ok sound alike =>
    have hdisplay := Regime.Reads.display Renaming.lawful sound alike
    have htruthy := Regime.Reads.truthy Renaming.lawful sound alike
    exact .ok sound.sink alike.type_eq
      (Renaming.eq_of_reads hdisplay (h.display _ _ hrun) (h'.display _ _ hrun'))
      (Renaming.eq_of_reads htruthy (h.truthy _ _ hrun) (h'.truthy _ _ hrun'))
  | error admitted fault =>
    obtain ⟨e, rfl, -⟩ := admitted
    exact .error fault
  | left excused => exact absurd excused (Renaming.not_excused hends h hrun _)
  | right excused => exact absurd excused (Renaming.not_excused hends' h' hrun' _)

/-- A script that drops an array and returns another one:
    `function main() { [1]; return [2]; }`. -/
def Program.dropping : Program :=
  ⟨[.function ⟨some "main", [],
    [.expression (.array [.literal (.number 1)]), .giveBack (some (.array [.literal (.number 2)]))]⟩]⟩

/-- At the lower threshold its second array takes the slot of the first one. -/
theorem Program.collection_unobservable_dropping :
    dropping.NeverStale 9 (.start { gcThreshold := 2 } .unlimited) ∧
    dropping.NeverStale 9 (.start { gcThreshold := 50 } .unlimited) ∧
    SameOutcome (dropping.run 9 (.start { gcThreshold := 2 } .unlimited))
      (dropping.run 9 (.start { gcThreshold := 50 } .unlimited)) := by
  have hends : dropping.Ends 9 (.start { gcThreshold := 2 } .unlimited) := by
    intro m h
    cbv at h
    cases h
  have hends' : dropping.Ends 9 (.start { gcThreshold := 50 } .unlimited) := by
    intro m h
    cbv at h
    cases h
  have h : dropping.NeverStale 9 (.start { gcThreshold := 2 } .unlimited) := by
    refine ⟨fun alarm => by cbv, fun e m h => ?_, fun value m h => ?_, fun value m h => ?_⟩ <;>
      cbv at h <;> cases h
    · rintro ⟨e, hstale, -⟩
      cbv at hstale
      cases hstale
    · rintro ⟨e, hstale, -⟩
      cbv at hstale
      cases hstale
  have h' : dropping.NeverStale 9 (.start { gcThreshold := 50 } .unlimited) := by
    refine ⟨fun alarm => by cbv, fun e m h => ?_, fun value m h => ?_, fun value m h => ?_⟩ <;>
      cbv at h <;> cases h
    · rintro ⟨e, hstale, -⟩
      cbv at hstale
      cases hstale
    · rintro ⟨e, hstale, -⟩
      cbv at hstale
      cases hstale
  exact ⟨h, h', collection_unobservable dropping {} 2 50 .unlimited 9 9 hends hends' h h'⟩

/-- A script in which `find` gives an element that was taken off the array before it was kept alive:
    `function main() { let a = [{k: 1}]; let f = a.find(() => { a.pop(); return true; });
    return f.k; }`. -/
def Program.popping : Program :=
  ⟨[.function ⟨some "main", [],
    [.define "a" (some (.array [.object [⟨"k", .literal (.number 1)⟩]])),
      .define "f" (some (.call (.index (.name "a") (.literal (.string "find")))
        [.function ⟨none, [],
          [.expression (.call (.index (.name "a") (.literal (.string "pop"))) []),
            .giveBack (some (.literal (.boolean true)))]⟩])),
      .giveBack (some (.index (.name "f") (.literal (.string "k"))))]⟩]⟩

-- here the law does fail: the run with the lower threshold meets a stale handle
example : ¬ SameOutcome (Program.popping.run 12 (.start { gcThreshold := 5 } .unlimited))
    (Program.popping.run 12 (.start { gcThreshold := 50 } .unlimited)) := by
  intro h
  cbv at h
  cases h

end Tao
