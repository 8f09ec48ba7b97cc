/-
  What a run still needs survives every collection.

  A collection may strike at any pause.  Whatever statements, expressions and calls under way will
  come back to must then be reachable from the roots, or a later step would meet a stale handle.
  This file says what that means at every pause and at the ends of all activations (`anchoring`),
  and proves it for all runs but those of two kinds: runs in which a method PICKS elements, that is
  `filter`, `where` and `find`, as such a method hands on elements that nobody kept alive while it
  called back; and runs in which a method that calls back is itself called back, as nobody keeps
  its receiver alive then.

  The runs that are left are `IsPlain`.  None of them fails by a stale handle, however often
  garbage is collected.
-/
import Mathlib
import Tao.Proofs.Lockstep.Diagonal

namespace Tao

/-! ## Machines -/

/-- All that a value refers to is there. -/
def Heap.Backs (heap : Heap) (value : Value) : Prop :=
  ∀ node, value.RefersTo node → heap.Resolves node

namespace Machine

/-- A cell that a collection would spare. -/
def Reaches (m : Machine) (node : Node) : Prop := m.heap.Reaches m.roots m.held node

/-- The scopes to come back to are there, a collection would spare them, and every handle stored in
    a cell resolves. -/
structure Anchored (m : Machine) : Prop where
  roots : ∀ id ∈ m.roots, m.Reaches (.scope id)
  cells : ∀ node next, m.heap.Refers node next → m.heap.Resolves next

/-- The value is kept alive, and a collection would spare all that it refers to. -/
structure Secures (m : Machine) (value : Value) : Prop where
  held : value ∈ m.held
  reaches : ∀ node, value.RefersTo node → m.Reaches node

/-- A later machine spares what this one does. -/
structure Keeps (m m' : Machine) : Prop where
  roots : m'.roots = m.roots ∧ ∀ id ∈ m.roots, m'.Reaches (.scope id)
  secured : ∀ value, m.Secures value → m'.Secures value

/-- A call finds all that it was given, and a method that calls back has it kept alive. -/
structure MayCall (m : Machine) (callee : Value) (arguments : List Value) : Prop where
  backs_callee : m.heap.Backs callee
  backs_arguments : ∀ argument ∈ arguments, m.heap.Backs argument
  secured : callee.callsBack = true →
    arguments = [] ∨ m.Secures callee ∧ ∀ argument ∈ arguments, m.Secures argument

end Machine

/-! ## Runs -/

/-- The watch that raises the alarm when a method picks elements, or when one that calls back is
    itself called back. -/
def Watch.restraining (alarm : Halt RuntimeError) (w : Watch) : Watch :=
  { w with
    call := fun callee arguments x =>
      if callee.picks then throw alarm else w.call callee arguments x
    callBack := fun callee arguments x =>
      if callee.callsBack then throw alarm else w.callBack callee arguments x }

/-- The watch that raises the alarm when something still needed could be collected.

    It looks at the machine at every pause, and requires the pause to spare what it should.  The
    value of an expression has to be kept alive from then on, until the statement under way lets go
    of it; what a call gives has to be there. -/
noncomputable def Watch.anchoring (alarm : Halt RuntimeError) (w : Watch) : Watch :=
  open scoped Classical in
  { pause := do
      Eval.require Machine.Anchored alarm
      Eval.ensure (fun m _ m' => m.Keeps m' ∧ m'.held = m.held) alarm w.pause
    evaluate := fun expression x =>
      Eval.ensure (fun m value m' => m.Keeps m' ∧ m'.Secures value) alarm (w.evaluate expression x)
    execute := fun statement x =>
      Eval.ensure (fun m _ m' => m.Keeps m' ∧ m'.held = m.held) alarm (w.execute statement x)
    call := fun callee arguments x => do
      Eval.require (·.MayCall callee arguments) alarm
      Eval.ensure (fun m value m' => m.Keeps m' ∧ m'.heap.Backs value) alarm
        (w.call callee arguments x)
    callBack := w.callBack }

/-- A run in which no method picks elements, and none that calls back is itself called back. -/
def Program.IsPlain (program : Program) (due : Machine → Bool) (fuel : Nat) (m : Machine) : Prop :=
  ∀ alarm, program.runWatched (.restraining alarm (.idle due)) fuel m = program.runWhen due fuel m

/-- A run that always keeps what it still needs. -/
structure Program.StaysAnchored (program : Program) (due : Machine → Bool) (fuel : Nat)
    (m : Machine) : Prop where
  /-- It does not fail by a stale handle. -/
  never_stale : ∀ e m', program.runWhen due fuel m = .error (.failed e) m' →
    e.category ≠ .internal
  /-- What it gives is there. -/
  backs_result : ∀ value m', program.runWhen due fuel m = .ok value m' → m'.heap.Backs value
  /-- It never raises the alarm. -/
  anchored : ∀ alarm,
    program.runWatched (.anchoring alarm (.idle due)) fuel m = program.runWhen due fuel m

/-! ## The regime -/

/-- Two copies of a run, of which the left one may end with the alarm.  Handles resolve. -/
def Diagonal.live (alarm : Halt RuntimeError) : Diagonal where
  shape := .any
  lasting := False
  fit _ := True
  admits halt := ∀ e, halt = .failed e → e.category ≠ .internal
  excuses halt := halt = alarm

namespace Anchored

variable {alarm alarm' : Halt RuntimeError} {m m' : Machine} {u v : Value} {exact : Bool}

/-- Two copies of a run keep to this regime, as all that it asks of a cell is that its handles
    resolve. -/
theorem lawful_live (alarm : Halt RuntimeError) : (Diagonal.live alarm).Lawful where
  admits he e h := by
    cases h
    exact he
  admitsStale h := h.elim
  fitNew _ := trivial
  fitBindings _ := trivial

/-- In this regime to be known is to be there. -/
theorem resolves_of_known {heap : Heap} {node : Node} (h : (Diagonal.live alarm).Known heap node) :
    heap.Resolves node :=
  h.resolve_left id

/-- A value that is alike to another one in this regime is that one, and all that it refers to is
    there. -/
theorem backs_of_alike {heap : Heap}
    (h : Value.Alike .any ((Diagonal.live alarm).pairing heap) u v) : heap.Backs v := by
  have hsame : u = v := Diagonal.eq_of_alike (D := .live alarm) h
  subst hsame
  exact fun node href => resolves_of_known (Diagonal.known_of_alike (D := .live alarm) h href)

/-- A value that is backed is alike to itself, as there is no demand on the shape of code. -/
theorem alike_of_backs {heap : Heap} (h : heap.Backs v) :
    Value.Alike .any ((Diagonal.live alarm).pairing heap) v v := by
  cases v with
  | object id => exact .object ⟨rfl, .inr (h _ (.object id))⟩
  | array id => exact .array ⟨rfl, .inr (h _ (.array id))⟩
  | function closure =>
    exact .function closure.code.everywhere_any ⟨rfl, .inr (h _ (.closure closure))⟩
  | builtin builtin =>
    cases builtin with
    | arrayMethod stamp method id =>
      exact .arrayMethod stamp method ⟨rfl, .inr (h _ (.receiver stamp method id))⟩
    | print => exact .print
    | println => exact .println
    | len => exact .len
    | stringMethod stamp method receiver => exact .stringMethod stamp method receiver
  | nil => exact .nil
  | boolean b => exact .boolean b
  | number n => exact .number n
  | string s => exact .string s
  | maker maker => exact .maker maker

/-- The scopes to come back to are roots, so a collection spares them. -/
theorem reaches_root (h : (Diagonal.live alarm).Holds m) {id : ScopeId} (hid : id ∈ m.roots) :
    m.Reaches (.scope id) :=
  .scope hid (h.roots id hid)

/-- A value that is held and backed is secured. -/
theorem secures_of_held (hheld : v ∈ m.held) (hbacks : m.heap.Backs v) : m.Secures v :=
  ⟨hheld, fun node href => .value hheld href (hbacks node href)⟩

/-- Here only what is held is pinned. -/
theorem secures_of_pinned
    (h : (Diagonal.live alarm).regime.Pinned ((Diagonal.live alarm).joint m) u v) :
    m.Secures v :=
  secures_of_held (h.kept.resolve_left False.elim).2 (backs_of_alike h.alike)

/-- The converse: what is secured is held in both copies. -/
theorem pinned_of_secures (h : m.Secures v) :
    (Diagonal.live alarm).regime.Pinned ((Diagonal.live alarm).joint m) v v :=
  ⟨alike_of_backs fun node href => (h.reaches node href).resolves, .inr ⟨h.held, h.held⟩⟩

/-- What a cell refers to is known. -/
theorem anchored_of_holds (h : (Diagonal.live alarm).Holds m) : m.Anchored where
  roots _ hid := reaches_root h hid
  cells node next hedge := by
    have hnamed : ∀ {xs : List (String × Value)} {name : String} {value : Value},
        Named.Rel (Value.Alike .any ((Diagonal.live alarm).pairing m.heap)) xs xs →
        (name, value) ∈ xs → value.RefersTo next → m.heap.Resolves next := by
      intro xs name value hrel hmem href
      have halike := List.forall₂_same.1 hrel _ hmem
      exact backs_of_alike halike.2 next href
    cases hedge with
    | parent here edge =>
      have hparent := (h.scopes _ _ here).1.parent
      rw [edge] at hparent
      cases hparent with
      | some hpair => exact resolves_of_known hpair.2
    | binding here edge refers => exact hnamed (h.scopes _ _ here).1.bindings edge refers
    | returned here edge refers =>
      have hreturned := (h.scopes _ _ here).1.returned
      rw [edge] at hreturned
      cases hreturned with
      | some hvalue => exact backs_of_alike hvalue next refers
    | property here edge refers => exact hnamed (h.objects _ _ here) edge refers
    | element here edge refers =>
      exact backs_of_alike (List.forall₂_same.1 (h.arrays _ _ here).elements _ edge) next refers
    | sideProperty here edge refers => exact hnamed (h.arrays _ _ here).props edge refers

/-- Whatever was pinned still is, so a machine keeps what it should. -/
theorem keeps_of_leads (h : (Diagonal.live alarm).Holds m)
    (hleads : (Diagonal.live alarm).regime.Leads exact ((Diagonal.live alarm).joint m)
      ((Diagonal.live alarm).joint m')) : m.Keeps m' where
  roots := by
    refine ⟨hleads.roots.2, fun id hid => ?_⟩
    have hnow := hleads.pinnedScope id id ⟨⟨rfl, .inr (h.roots id hid)⟩, .inr ⟨hid, hid⟩⟩
    exact .scope (hleads.roots.2 ▸ hid) (resolves_of_known hnow.paired.2)
  secured value hvalue := secures_of_pinned (hleads.pinned value value (pinned_of_secures hvalue))

/-- What may be called in lockstep may be called. -/
theorem mayCall_of_callable {us vs : List Value}
    (h : (Diagonal.live alarm).regime.Callable ((Diagonal.live alarm).joint m) u v us vs) :
    m.MayCall v vs := by
  have hcallee : u = v := Diagonal.eq_of_alike (D := .live alarm) h.callee
  have harguments : us = vs := Diagonal.eq_of_values (D := .live alarm) h.arguments
  subst hcallee harguments
  refine ⟨backs_of_alike h.callee, fun argument hmem => ?_, fun hcalls => ?_⟩
  · exact backs_of_alike (List.forall₂_same.1 h.arguments argument hmem)
  · refine (h.ready hcalls).imp_right fun hpinned => ⟨secures_of_pinned hpinned.1, ?_⟩
    exact fun argument hmem => secures_of_pinned (List.forall₂_same.1 hpinned.2 argument hmem)

/-! ## The watches agree -/

/-- The left copy may always end with the alarm. -/
theorem steps_throw_left {α β : Type} {j : Joint} {y : Eval β} {post : Joint → α → β → Prop} :
    (Diagonal.live alarm).regime.Steps exact j (throw alarm) y post :=
  .left rfl

open scoped Classical in
/-- A run that may end with an alarm, beside one that never does. -/
theorem agree (alarm alarm' : Halt RuntimeError) (due : Machine → Bool) :
    Watch.Agree (Diagonal.live alarm').regime (.restraining alarm' (.idle due))
      (.anchoring alarm (.idle due)) where
  pause hs := by
    obtain ⟨m, rfl, hm⟩ := Diagonal.sound_iff.1 hs
    refine .requireRight (anchored_of_holds hm)
      (.ensureRight (Diagonal.steps_collectWhen due hs) fun now _ _ hs hleads _ => ?_)
    obtain ⟨m', rfl, -⟩ := Diagonal.sound_iff.1 hs
    exact ⟨keeps_of_leads hm hleads, (hleads.held rfl).2⟩
  evaluate hs _ h := by
    obtain ⟨m, rfl, hm⟩ := Diagonal.sound_iff.1 hs
    refine .ensureRight h fun now u v hs hleads hpinned => ?_
    obtain ⟨m', rfl, -⟩ := Diagonal.sound_iff.1 hs
    exact ⟨keeps_of_leads hm hleads, secures_of_pinned hpinned⟩
  execute hs _ h := by
    obtain ⟨m, rfl, hm⟩ := Diagonal.sound_iff.1 hs
    refine .ensureRight h fun now _ _ hs hleads _ => ?_
    obtain ⟨m', rfl, -⟩ := Diagonal.sound_iff.1 hs
    exact ⟨keeps_of_leads hm hleads, (hleads.held rfl).2⟩
  call {j u v us vs x y} hs hcallable h := by
    obtain ⟨m, rfl, hm⟩ := Diagonal.sound_iff.1 hs
    show Regime.Steps _ false _ (if u.picks then throw alarm' else x) _ _
    cases hpicks : u.picks with
    | true => exact steps_throw_left
    | false =>
      refine .requireRight (mayCall_of_callable hcallable)
        (.ensureRight (h (.inr hpicks)) fun now u v hs hleads halike => ?_)
      obtain ⟨m', rfl, -⟩ := Diagonal.sound_iff.1 hs
      exact ⟨keeps_of_leads hm hleads, backs_of_alike halike⟩
  callBack {j u v us vs x y} hs huv h := by
    show Regime.Steps _ false _ (if u.callsBack then throw alarm' else x) _ _
    cases hcalls : u.callsBack with
    | true => exact steps_throw_left
    | false => exact h (.inr hcalls)

/-! ## Whole runs -/

/-- An alarm that a given run does not end with, not even under a flush that fails. -/
theorem exists_alarm (r : EStateM.Result (Halt RuntimeError) Machine Value) :
    ∃ alarm, ∀ k halt m, r = .error halt m → ¬ Regime.FlushedExcuse (· = alarm) k halt := by
  cases r with
  | ok value m => exact ⟨.outOfFuel, fun _ _ _ h => nomatch h⟩
  | error halt m =>
    cases halt with
    | outOfFuel =>
      refine ⟨.failed .sinkFull, fun k halt m' h => ?_⟩
      cases h
      rintro (hexcuse | ⟨hflush, -⟩)
      · cases hexcuse
      · cases hflush
    | failed e =>
      refine ⟨.outOfFuel, fun k halt m' h => ?_⟩
      cases h
      rintro (hexcuse | ⟨-, e', hexcuse, -⟩)
      · cases hexcuse
      · cases hexcuse

/-- Two runs of which neither ends with its alarm are the same, and not stale. -/
theorem of_finishes {k k' : Evaluator} {r s : EStateM.Result (Halt RuntimeError) Machine Value}
    (h : (Diagonal.live alarm).regime.Finishes k k' r s)
    (halarm : ∀ halt m, r = .error halt m → ¬ Regime.FlushedExcuse (· = alarm) k halt) :
    s = r ∧ (∀ e m, r = .error (.failed e) m → e.category ≠ .internal) ∧
      ∀ value m, r = .ok value m → m.heap.Backs value := by
  cases h with
  | ok sound halike =>
    obtain ⟨m, rfl, -⟩ := Diagonal.sound_iff.1 sound
    have hsame := Diagonal.eq_of_alike (D := .live alarm) halike
    subst hsame
    refine ⟨rfl, (fun _ _ h => nomatch h), fun value m' h => ?_⟩
    cases h
    exact backs_of_alike halike
  | error admitted fault =>
    cases fault
    refine ⟨rfl, fun e m' h => ?_, fun _ _ h => nomatch h⟩
    cases h
    exact admitted e rfl
  | left excused => exact absurd excused (halarm _ _ rfl)
  | right excused =>
    rcases excused with h | ⟨-, e, h, -⟩
    · exact h.elim
    · exact h.elim

end Anchored

/-- Whenever garbage is collected, a plain run keeps what it still needs. -/
theorem Program.stays_anchored (program : Program) (config : Config) (sink : Sink) (fuel : Nat)
    (due : Machine → Bool) (hplain : program.IsPlain due fuel (.start config sink)) :
    program.StaysAnchored due fuel (.start config sink) := by
  obtain ⟨alarm, halarm⟩ := Anchored.exists_alarm (program.runWhen due fuel (.start config sink))
  have hD := Anchored.lawful_live alarm
  have hs : (Diagonal.live alarm).regime.Sound ((Diagonal.live alarm).joint (.start config sink)) :=
    Diagonal.sound_iff.2 ⟨_, rfl, Diagonal.holds_start hD config sink⟩
  have hbound : Regime.SameBound (Diagonal.live alarm).regime fuel fuel := .inl ⟨rfl, nofun⟩
  have hrun : ∀ alarm',
      program.runWatched (.anchoring alarm' (.idle due)) fuel (.start config sink) =
          program.runWhen due fuel (.start config sink) ∧ _ ∧ _ := fun alarm' => by
    have hfinishes := Regime.finishes (hD.signalling id fun _ => trivial)
      (Anchored.agree alarm' alarm due) hbound (Statement.allEverywhere_any program.statements) hs
    exact Anchored.of_finishes (hplain alarm ▸ hfinishes) (halarm _)
  exact ⟨(hrun alarm).2.1, (hrun alarm).2.2, fun alarm' => (hrun alarm').1⟩

/-- **No stale handle in a run.**  Whatever the program, the limits and the sink: a run in which no
    method picks elements, and none that calls back is itself called back, never fails by a stale
    handle.

    The reason is that collections are harmless wherever they strike.  Let `due` decide in any way
    at which pauses garbage is collected: a plain run keeps what it still needs. -/
theorem Program.run_never_stale (program : Program) (config : Config) (sink : Sink) (fuel : Nat)
    (hplain : program.IsPlain Machine.hasGrown fuel (.start config sink)) :
    (∀ e m, program.run fuel (.start config sink) = .error (.failed e) m →
      e.category ≠ .internal) ∧
    ∀ due, program.IsPlain due fuel (.start config sink) →
      program.StaysAnchored due fuel (.start config sink) := by
  have hreal := program.stays_anchored config sink fuel Machine.hasGrown hplain
  refine ⟨fun e m hrun => hreal.never_stale e m ?_, fun due => ?_⟩
  · rw [Program.runWhen_hasGrown]
    exact hrun
  · exact program.stays_anchored config sink fuel due

/-- A script that maps a function over an array:
    `function main() { let wrap = x => [x]; return [1].map(wrap); }`. -/
def Program.wrapping : Program :=
  ⟨[.function ⟨some "main", [],
    [.define "wrap" (some (.function ⟨none, ["x"], [.giveBack (some (.array [.name "x"]))]⟩)),
      .giveBack (some (.call (.index (.array [.literal (.number 1)]) (.literal (.string "map")))
        [.name "wrap"]))]⟩]⟩

/-- Its run is plain, also with a collection at every pause that finds more than two cells. -/
theorem Program.run_never_stale_wrapping :
    wrapping.IsPlain Machine.hasGrown 9 (.start { gcThreshold := 2 } .unlimited) ∧
    ∀ e m, wrapping.run 9 (.start { gcThreshold := 2 } .unlimited) = .error (.failed e) m →
      e.category ≠ .internal := by
  have hplain : wrapping.IsPlain Machine.hasGrown 9 (.start { gcThreshold := 2 } .unlimited) := by
    intro alarm
    cbv
  exact ⟨hplain, (run_never_stale wrapping { gcThreshold := 2 } .unlimited 9 hplain).1⟩

end Tao
