/-
  Signals are raised and taken down in an orderly way.

  The last step from `Mirrors` to whole scripts.  A call takes the signals of its body down, so
  calls stay in lockstep; with that, each level of an evaluator with signals mirrors the structured
  one, by induction on the levels.

  Two facts about the scripts that are parsed follow.  Their runs are those of the structured
  evaluator, in which a call gives what its own body returned.  And at every statement of such a
  run the DISCIPLINE is kept: it starts without a signal anywhere, and raises at most one, in the
  scope it is executed in; a `break` only if it holds one that belongs to something around it.  The
  watch `disciplined` asks this of every statement, expression and call on the way.
-/
import Mathlib
import Tao.Proofs.Parser.Canonical
import Tao.Proofs.Parser.Tidy
import Tao.Proofs.Signals.Mirrors

namespace Tao

/-! ## The discipline -/

namespace Machine

/-- Is no signal up anywhere? -/
def Quiet (m : Machine) : Prop := ∀ id, m.QuietAt id

/-- A scope that two machines have carries the same signals on both. -/
def SameSignals (m m' : Machine) (id : ScopeId) : Prop :=
  ∀ s s', m.heap.scopes.get? id = some s → m'.heap.scopes.get? id = some s' →
    s'.broke = s.broke ∧ s'.returned = s.returned

/-- What executing a statement does to the signals. -/
structure Disciplined (statement : Statement) (m m' : Machine) : Prop where
  /-- Scopes other than the active one carry the signals that they did. -/
  same : ∀ id, id ≠ m.scope → m.SameSignals m' id
  /-- That goes for scopes made on the way, too, such as the one of a loop: no signal is up in
      them. -/
  quiet : ∀ id, id ≠ m.scope → m'.QuietAt id
  /-- The active scope is still there. -/
  active : ∃ s, m'.heap.scopes.get? m.scope = some s
  /-- At most one signal is up in the active scope. -/
  atMostOne : ∀ s, m'.heap.scopes.get? m.scope = some s → s.broke = true → s.returned = none
  /-- It is a break only if the statement holds a `break` that is none of an inner loop, choice or
      function. -/
  breaks : ∀ s, m'.heap.scopes.get? m.scope = some s → s.broke = true → statement.Breaks

variable {m m' : Machine} {id : ScopeId}

/-- Where no signal is up, before and after, signals are the same. -/
theorem sameSignals_of_quietAt (h : m.QuietAt id) (h' : m'.QuietAt id) : m.SameSignals m' id := by
  intro s s' hs hs'
  obtain ⟨hbroke, hreturned⟩ := Scope.unsignalled_iff.1 (h s hs)
  obtain ⟨hbroke', hreturned'⟩ := Scope.unsignalled_iff.1 (h' s' hs')
  rw [hbroke, hreturned, hbroke', hreturned']
  exact ⟨rfl, rfl⟩

/-- Raising a completion in one scope leaves the others without signals. -/
theorem quietAt_raiseAt {t : ScopeId} {c : Completion} (h : m.QuietAt id) (hid : id ≠ t) :
    (m.raiseAt t c).QuietAt id := by
  intro s hs
  rw [get?_raiseAt, if_neg hid] at hs
  exact h s hs

end Machine

/-- The watch that raises the alarm when the discipline is broken. -/
noncomputable def Watch.disciplined (alarm : Halt RuntimeError) (w : Watch) : Watch :=
  open scoped Classical in
  { pause := do
      Eval.require Machine.Quiet alarm
      w.pause
    evaluate := fun expression x =>
      Eval.ensure (fun m _ m' => ∀ id, m.SameSignals m' id) alarm (w.evaluate expression x)
    execute := fun statement x => do
      Eval.require Machine.Quiet alarm
      Eval.ensure (fun m _ m' => m.Disciplined statement m') alarm (w.execute statement x)
    call := fun callee arguments x =>
      Eval.ensure (fun m _ m' => ∀ id, m.SameSignals m' id) alarm (w.call callee arguments x)
    callBack := w.callBack }

namespace Signals

open Diagonal (quiet)

variable {α β : Type} {k : Structured} {k' : Evaluator} {m m' : Machine} {exact : Bool}
  {alarm : Halt RuntimeError} {s : ScopeId} {us : List Value}

/-- Quiet machines have the same signals everywhere: none. -/
theorem sameSignals_of_holds (h : quiet.Holds m) (h' : quiet.Holds m') (id : ScopeId) :
    m.SameSignals m' id :=
  Machine.sameSignals_of_quietAt (quietAt_of_holds h id) (quietAt_of_holds h' id)

/-- A completion that a statement allows, raised where the statement was executed, keeps the
    discipline. -/
theorem disciplined_raiseAt {statement : Statement} {c raised : Completion} (h : quiet.Holds m)
    (hreached : Reached exact m m') (htells : Tells statement.Allows m'.heap c () raised) :
    m.Disciplined statement (m'.raiseAt m.scope raised) := by
  obtain ⟨rfl, hallowed, -⟩ := htells
  obtain ⟨scope, hthere⟩ := exists_get?_of_mem hreached.holds (hreached.mem (scope_mem_roots m))
  have hnow : ∃ s, (m'.raiseAt m.scope raised).heap.scopes.get? m.scope = some s := by
    rw [Machine.get?_raiseAt, if_pos rfl, hthere]
    exact ⟨_, rfl⟩
  have hactive : ∀ s, (m'.raiseAt m.scope raised).heap.scopes.get? m.scope = some s →
      s.broke = raised.signals.1 ∧ s.returned = raised.signals.2 := by
    intro s hs
    rw [Machine.get?_raiseAt, if_pos rfl] at hs
    obtain ⟨before, -, rfl⟩ := Option.map_eq_some_iff.1 hs
    exact ⟨rfl, rfl⟩
  -- a signal is raised on the scope that is active, and on no other
  have hquiet : ∀ id, id ≠ m.scope → (m'.raiseAt m.scope raised).QuietAt id := fun id hid =>
    Machine.quietAt_raiseAt (quietAt_of_holds hreached.holds id) hid
  refine ⟨fun id hid => ?_, hquiet, hnow, fun s hs hbroke => ?_, fun s hs hbroke => ?_⟩
  · exact Machine.sameSignals_of_quietAt (quietAt_of_holds h id) (hquiet id hid)
  · obtain ⟨hb, hr⟩ := hactive s hs
    rw [hr]
    cases raised with
    | normal | broke => rfl
    | returned value =>
      rw [hb] at hbroke
      cases hbroke
  · rw [(hactive s hs).1] at hbroke
    cases raised with
    | broke => exact hallowed
    | normal | returned _ => cases hbroke

/-! ## Calls -/

/-- The body of a function completes, and its signals are taken down at once: the call gives what
    the body returned. -/
theorem Mirrors.callClosure (h : Mirrors k k') (hm : quiet.Holds m) {stamp : Nat}
    {code : FunctionCode} (hcode : code.Everywhere .tidy) {c : ScopeId}
    (hc : (quiet.pairing m.heap).scope c c)
    (hus : List.Forall₂ (Value.Alike .tidy (quiet.pairing m.heap)) us us) :
    regime.Steps false (quiet.joint m) (k.callClosure ⟨stamp, code, c⟩ us)
      (k'.callClosure ⟨stamp, code, c⟩ us) regime.Alike := by
  have hbody : Statement.AllEverywhere .tidy code.body := (FunctionCode.everywhere_iff.1 hcode).2
  refine (lawful.checkDepth (sound_of_holds hm)).loosen.bind fun now _ _ hs _ hnow => ?_
  subst hnow
  refine (Regime.Steps.readFrom lawful hs
    (f := fun _ => Evaluator.bindParams (.inside (some c)) code.params us)
    (g := fun _ => Evaluator.bindParams (.inside (some c)) code.params us)
    (Regime.Reads.bindParams (j := quiet.joint m) lawful (Scope.alike_inside hc) rfl code.params
      hus)).bind
    fun now scope scope' hs _ ⟨hnow, hscope, hsignals⟩ => ?_
  subst hnow
  obtain rfl := Diagonal.eq_of_scope (D := quiet) hscope
  refine (steps_addScope hm hscope hsignals).bind fun now id id' hs _ ⟨hid, hthere⟩ => ?_
  subst hid
  obtain ⟨m₁, rfl, h₁⟩ := Diagonal.sound_iff.1 hs
  have hdeeper : quiet.Holds { m₁ with depth := m₁.depth + 1 } := h₁.ofHeap rfl h₁.roots
  refine Raises.steps (Raises.deeper (h.runBlock hbody hdeeper hthere)).loosen
    fun m₂ completion _ raised h₂ ⟨hthere, htells⟩ => ?_
  obtain rfl := htells.raised
  rw [lowerSignals_bind h₂.holds hthere]
  have hs₂ := sound_of_holds h₂.holds
  cases raised with
  | normal | broke => exact .ok hs₂ .refl .nil
  | returned value => exact .ok hs₂ .refl (htells.tidy value rfl)

/-- All calls.  A built-in function raises nothing itself, and calls back through calls. -/
theorem Mirrors.callAny (h : Mirrors k k') (hm : quiet.Holds m) {u v : Value} {vs : List Value}
    (hcallable : regime.Callable (quiet.joint m) u v us vs) :
    regime.Steps false (quiet.joint m) (k.callAny u us) (k'.callAny v vs) regime.Alike := by
  have hargs : us = vs := Diagonal.eq_of_values (D := quiet) hcallable.arguments
  subst hargs
  have hback : regime.CallsBack k.forget k' := fun hs huv huvs =>
    h.matched.call hs ⟨huv, huvs, fun _ => .inr
      ⟨.ofLasting trivial huv, huvs.imp fun _ _ huv => .ofLasting trivial huv⟩⟩
  have hbuiltin : ∀ {x y : Builtin}, regime.Alike (quiet.joint m) (.builtin x) (.builtin y) →
      regime.Steps false (quiet.joint m) (k.forget.callBuiltin x us) (k'.callBuiltin y us)
        regime.Alike := fun hxy =>
    .callBuiltin lawful h.matched.bound hback (sound_of_holds hm) hxy hcallable.arguments
      (.inl trivial) fun _ => .inr ⟨.ofLasting trivial hxy,
        hcallable.arguments.imp fun _ _ huv => .ofLasting trivial huv⟩
  have hcallee := hcallable.callee
  cases hcallee with
  | function hcode hpaired =>
    obtain ⟨rfl, hknown⟩ := hpaired
    exact h.callClosure hm hcode ⟨rfl, hknown⟩ hcallable.arguments
  | print => exact hbuiltin .print
  | println => exact hbuiltin .println
  | len => exact hbuiltin .len
  | arrayMethod stamp method hpaired => exact hbuiltin (.arrayMethod stamp method hpaired)
  | stringMethod stamp method receiver => exact hbuiltin (.stringMethod stamp method receiver)
  | _ => exact .fail lawful (sound_of_holds hm) nofun

/-! ## Levels -/

/-- A check that the run with signals passes. -/
theorem Raises.requireRight {P : Heap → α → β → Completion → Prop} {test : Machine → Prop}
    [DecidablePred test] {r : EStateM.Result (Halt RuntimeError) Machine α} {y : Eval β}
    (htest : test m) (h : Raises exact s m P r (y m)) :
    Raises exact s m P r ((do Eval.require test alarm; y) m) := by
  have hpass : Eval.require test alarm m = .ok () m := if_pos htest
  rw [EStateM.bind_of_ok hpass]
  exact h

/-- A duty that the run with signals fulfils. -/
theorem Raises.ensureRight {P : Heap → α → β → Completion → Prop}
    {duty : Machine → β → Machine → Prop} [∀ m b m', Decidable (duty m b m')]
    {r : EStateM.Result (Halt RuntimeError) Machine α} {y : Eval β} (h : Raises exact s m P r (y m))
    (hduty : ∀ m' a b c, Reached exact m m' → P m'.heap a b c → duty m b (m'.raiseAt s c)) :
    Raises exact s m P r (Eval.ensure duty alarm y m) := by
  unfold Eval.ensure
  generalize y m = r' at h
  cases h with
  | ok reached holds =>
    dsimp only
    rw [if_pos (hduty _ _ _ _ reached holds)]
    exact .ok reached holds
  | error => exact .error

/-- At the same level both may make as many turns. -/
theorem sameBound (n : Nat) : regime.SameBound n n := .inl ⟨rfl, trivial⟩

/-- A watch under which an evaluator with signals still mirrors the structured one. -/
structure Unobtrusive (due : Machine → Bool) (w : Watch) : Prop where
  pause : ∀ {m}, quiet.Holds m →
    regime.Steps true (quiet.joint m) (Eval.collectWhen due) w.pause fun _ _ _ => True
  evaluate : ∀ {m e x y}, quiet.Holds m → regime.Steps false (quiet.joint m) x y regime.Pinned →
    regime.Steps false (quiet.joint m) x (w.evaluate e y) regime.Pinned
  execute : ∀ {m statement r y}, quiet.Holds m →
    Raises true m.scope m (Tells statement.Allows) r (y m) →
    Raises true m.scope m (Tells statement.Allows) r (w.execute statement y m)
  call : ∀ {m callee arguments x y}, quiet.Holds m →
    regime.Steps false (quiet.joint m) x y regime.Alike →
    regime.Steps false (quiet.joint m) x (w.call callee arguments y) regime.Alike
  callBack : w.callBack = fun _ _ x => x

/-- A watch that asks for nothing is not noticed. -/
theorem unobtrusive_idle (due : Machine → Bool) : Unobtrusive due (.idle due) :=
  ⟨fun hm => Diagonal.steps_collectWhen due (sound_of_holds hm), fun _ h => h, fun _ h => h,
    fun _ h => h, rfl⟩

open scoped Classical in
/-- What is in lockstep changes no signals, so nothing alarms whoever watches. -/
theorem steps_ensure {x y : Eval Value} {post : Joint → Value → Value → Prop}
    (hm : quiet.Holds m) (h : regime.Steps false (quiet.joint m) x y post) :
    regime.Steps false (quiet.joint m) x
      (Eval.ensure (fun m _ m' => ∀ id, m.SameSignals m' id) alarm y) post := by
  refine .ensureRight h fun now _ _ hs _ _ => ?_
  obtain ⟨m', rfl, hm'⟩ := Diagonal.sound_iff.1 hs
  exact sameSignals_of_holds hm hm'

open scoped Classical in
/-- Nor is one that asks for the discipline, since it is kept. -/
theorem unobtrusive_disciplined (alarm : Halt RuntimeError) (due : Machine → Bool) :
    Unobtrusive due (.disciplined alarm (.idle due)) where
  pause hm := .requireRight (quietAt_of_holds hm)
    (Diagonal.steps_collectWhen due (sound_of_holds hm))
  evaluate hm h := steps_ensure hm h
  execute hm h := by
    refine Raises.requireRight (quietAt_of_holds hm) (Raises.ensureRight h ?_)
    intro m' c _ raised hreached htells
    exact disciplined_raiseAt hm hreached htells
  call hm h := steps_ensure hm h
  callBack := rfl

/-- Every level of an evaluator with signals mirrors the structured one.  Induction on the
    levels. -/
theorem mirrors_watched {due : Machine → Bool} {w : Watch} (hw : Unobtrusive due w) (n : Nat) :
    Mirrors (Structured.ofFuel due n) (Evaluator.watched w n) := by
  induction n with
  | zero =>
    have hout : ∀ {post : Joint → Value → Value → Prop} {j : Joint}, regime.Sound j →
        regime.Steps false j (throw .outOfFuel) (throw .outOfFuel) post := fun hs =>
      .outOfFuel (lawful.fault hs) (.inl trivial)
    exact ⟨⟨sameBound 0, fun hs _ => hout hs, fun hs _ => hout hs⟩, hw.pause, fun _ _ => .error⟩
  | succ n ih =>
    have hback : (Evaluator.watched w n).callingBack w = Evaluator.watched w n := by
      unfold Evaluator.callingBack
      rw [hw.callBack]
    refine ⟨⟨sameBound (n + 1), fun hs he => ?_, fun hs hcallable => ?_⟩, hw.pause,
      fun hm hstatement => ?_⟩
    · obtain ⟨m, rfl, hm⟩ := Diagonal.sound_iff.1 hs
      exact hw.evaluate hm (.kept lawful (ih.matched.express lawful hs he))
    · obtain ⟨m, rfl, hm⟩ := Diagonal.sound_iff.1 hs
      have hcall := ih.callAny hm hcallable
      rw [← hback] at hcall
      exact hw.call hm hcall
    · exact hw.execute hm (Raises.lettingGo (ih.perform hstatement hm))

/-! ## Whole runs -/

/-- The statements of a script outside of its functions are definitions, so they raise nothing. -/
theorem Mirrors.runTopLevel (h : Mirrors k k') {statements : List Statement}
    (htidy : Statement.AllEverywhere .tidy statements)
    (hdefinitions : ∀ s ∈ statements, s.IsDefinition) {j : Joint} (hs : regime.Sound j) :
    regime.Steps true j
      (statements.forM fun statement => do k.forget.execute statement; k.forget.pause)
      (statements.forM fun statement => do k'.execute statement; k'.pause) fun _ _ _ => True := by
  induction statements generalizing j with
  | nil => exact .pure hs trivial
  | cons statement rest ih =>
    have hfirst : regime.Steps true j (do k.forget.execute statement; k.forget.pause)
        (do k'.execute statement; k'.pause) fun _ _ _ => True := by
      obtain ⟨m, rfl, hm⟩ := Diagonal.sound_iff.1 hs
      refine (h.executeDefinition htidy.1 (hdefinitions statement List.mem_cons_self) hm).bind
        fun now _ _ hs _ _ => ?_
      obtain ⟨m', rfl, hm'⟩ := Diagonal.sound_iff.1 hs
      exact h.pause hm'
    refine hfirst.bind fun _ _ _ hs _ _ => ?_
    exact ih htidy.2 (fun s hmem => hdefinitions s (List.mem_cons_of_mem _ hmem)) hs

/-- A tidy script does the same on an evaluator with signals and on the structured one that it
    mirrors, and leaves no signal up. -/
theorem Mirrors.runScript (h : Mirrors k k') {program : Program} (hprogram : program.IsTidy)
    (hm : quiet.Holds m) :
    k'.runScript program m = k.forget.runScript program m ∧
      ∀ value m', k'.runScript program m = .ok value m' → m'.Quiet := by
  have hs := sound_of_holds hm
  have hfinishes : regime.Finishes k.forget k' (k.forget.runScript program m)
      (k'.runScript program m) := by
    refine (h.runTopLevel hprogram.tidy hprogram.definitions hs).finishes fun now _ _ hs _ => ?_
    refine (Regime.Steps.entryPoint lawful hs).finishes fun now u v hs huv => ?_
    exact Regime.Steps.flushing lawful (h.matched.call hs ⟨huv, .nil, fun _ => .inl rfl⟩)
  generalize k.forget.runScript program m = r at hfinishes
  generalize k'.runScript program m = r' at hfinishes
  cases hfinishes with
  | ok sound halike =>
    obtain ⟨m', rfl, hm'⟩ := Diagonal.sound_iff.1 sound
    obtain rfl := Diagonal.eq_of_alike (D := quiet) halike
    refine ⟨rfl, fun value m'' hresult => ?_⟩
    cases hresult
    exact quietAt_of_holds hm'
  | error admitted fault =>
    cases fault
    exact ⟨rfl, nofun⟩
  | left excused => exact (excused.elim id fun ⟨_, _, hexcuse, _⟩ => hexcuse).elim
  | right excused => exact (excused.elim id fun ⟨_, _, hexcuse, _⟩ => hexcuse).elim

end Signals

/-- **Signals implement structured control flow.**  Take any script that is parsed, all limits and
    every sink.

    Its run is that of the structured evaluator, which has no signals: there, a call gives the value
    that its own body returned, or nil, and loops and choices end the breaks that belong to them.
    Moreover every statement executed on the way keeps the discipline, no expression and no call
    changes a signal, and if the run succeeds, then no signal is up at its end. -/
theorem Program.signals_structured {text : String} {program : Program}
    (hparse : parse text = .ok program) (config : Config) (sink : Sink) (fuel : Nat) :
    program.run fuel (.start config sink) =
        program.runStructured Machine.hasGrown fuel (.start config sink) ∧
      (∀ alarm, program.runWatched (.disciplined alarm (.idle Machine.hasGrown)) fuel
        (.start config sink) = program.run fuel (.start config sink)) ∧
      ∀ value m, program.run fuel (.start config sink) = .ok value m → m.Quiet := by
  have hm : Diagonal.quiet.Holds (.start config sink) :=
    Diagonal.holds_start Signals.lawful_quiet config sink
  have htidy := Program.isTidy_of_parse hparse
  have hwatched : ∀ {w : Watch}, Signals.Unobtrusive Machine.hasGrown w →
      program.runWatched w fuel (.start config sink) =
          program.runStructured Machine.hasGrown fuel (.start config sink) ∧
        ∀ value m, program.runWatched w fuel (.start config sink) = .ok value m → m.Quiet :=
    fun hw => (Signals.mirrors_watched hw fuel).runScript htidy hm
  have hidle := hwatched (Signals.unobtrusive_idle Machine.hasGrown)
  have hrun : program.runWatched (.idle Machine.hasGrown) fuel = program.run fuel :=
    Program.runWhen_hasGrown fuel program
  rw [hrun] at hidle
  refine ⟨hidle.1, fun alarm => ?_, hidle.2⟩
  rw [hidle.1]
  exact (hwatched (Signals.unobtrusive_disciplined alarm Machine.hasGrown)).1

/-- A loop that ends with a `break`, in a function that goes on after it and returns. -/
theorem Program.signals_structured_leavingLoop :
    parse leavingLoop.canonicalText = .ok leavingLoop ∧
      leavingLoop.run 12 (.start {} .unlimited) =
        leavingLoop.runStructured Machine.hasGrown 12 (.start {} .unlimited) ∧
      ∃ m, leavingLoop.run 12 (.start {} .unlimited) = .ok (.number 2) m ∧ m.Quiet := by
  have hparse := wellFormed_leavingLoop.parse_canonical
  have hstructured := signals_structured hparse {} .unlimited 12
  refine ⟨hparse, hstructured.1, ?_⟩
  cases hrun : leavingLoop.run 12 (.start {} .unlimited) with
  | error halt m =>
    cbv at hrun
    cases hrun
  | ok value m =>
    have hquiet := hstructured.2.2 _ m hrun
    have hvalue : value = .number 2 := by
      cbv at hrun
      cases hrun
      rfl
    exact ⟨m, hvalue ▸ rfl, hquiet⟩

end Tao
