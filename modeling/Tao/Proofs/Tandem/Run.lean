/-
  Runs in tandem.

  `Watch.doing` says anew what is done between two statements and how a text is written, and leaves
  everything else as it is; `Tandem.runs_doing` ties the knot for two such evaluators by induction
  on the levels.  Where the left one has fewer levels the right one is left alone when the left one
  stops, so it must stay ahead by itself; this is the same induction, in a tandem in which no two
  machines ever meet (`Tandem.alone`).
-/
import Tao.Proofs.Control.Levels
import Tao.Proofs.Tandem.Levels

namespace Tao

namespace Evaluator

/-- Prints values and maybe a line break after them.  How a text is written is up to `write`. -/
def printWith (write : String → Eval Unit) (lineBreak : Bool) (values : List Value) :
    Eval Value := do
  let texts ← Eval.read fun heap => values.mapM heap.display
  write (" ".intercalate texts)
  if lineBreak then
    write "\n"
  return .nil

/-- Printing with the usual way to write is what `print` and `println` do. -/
theorem printWith_write_false (k : Evaluator) (values : List Value) :
    printWith Eval.write false values = k.callAny (.builtin .print) values := by
  have hcall : k.callAny (.builtin .print) values =
      printValues values >>= fun _ => pure Value.nil := rfl
  rw [hcall]
  unfold printValues
  rw [bind_assoc]
  rfl

theorem printWith_write_true (k : Evaluator) (values : List Value) :
    printWith Eval.write true values = k.callAny (.builtin .println) values := by
  have hcall : k.callAny (.builtin .println) values =
      printValues values >>= fun _ => Eval.write "\n" >>= fun _ => pure Value.nil := rfl
  rw [hcall]
  unfold printValues
  rw [bind_assoc]
  rfl

end Evaluator

/-- Nobody watches, but what is done between two statements and how texts are written is given. -/
def Watch.doing (pause : Eval Unit) (write : String → Eval Unit) : Watch where
  pause := pause
  evaluate _ x := x
  execute _ x := x
  call callee arguments x :=
    match callee with
    | .builtin .print => Evaluator.printWith write false arguments
    | .builtin .println => Evaluator.printWith write true arguments
    | _ => x
  callBack _ _ x := x

/-- Calls do what they always do if texts are written to the sink. -/
theorem Evaluator.callAny_doing (k : Evaluator) (pause : Eval Unit) (callee : Value)
    (arguments : List Value) :
    (Watch.doing pause Eval.write).call callee arguments (k.callAny callee arguments) =
      k.callAny callee arguments := by
  unfold Watch.doing
  dsimp only
  split
  · exact printWith_write_false k arguments
  · exact printWith_write_true k arguments
  · rfl

/-- With the usual pause and the usual way to write, the evaluator is the usual one.  Induction on
    the levels. -/
theorem Evaluator.watched_doing_usual (n : Nat) :
    watched (.doing Eval.collectIfGrown Eval.write) n = ofFuel n := by
  rw [← watched_idle]
  induction n with
  | zero =>
    unfold watched Watch.idle Watch.doing
    rw [Eval.collectWhen_hasGrown]
  | succ n ih =>
    unfold watched
    rw [ih]
    have hcalls : (fun callee arguments =>
        (Watch.doing Eval.collectIfGrown Eval.write).call callee arguments
          ((watched (.idle Machine.hasGrown) n).callAny callee arguments)) =
        fun callee arguments => (watched (.idle Machine.hasGrown) n).callAny callee arguments :=
      funext fun callee => funext fun arguments => callAny_doing _ _ callee arguments
    show Evaluator.mk (n + 1) Eval.collectIfGrown _ _ (fun callee arguments =>
        (Watch.doing Eval.collectIfGrown Eval.write).call callee arguments
          ((watched (.idle Machine.hasGrown) n).callAny callee arguments)) = _
    rw [hcalls, ← Eval.collectWhen_hasGrown]
    rfl

namespace Tandem

variable {T : Tandem} {k k' : Evaluator} {here : Option ScopeId} {c : ScopeId}

/-- Printing goes together if writing does. -/
theorem Goes.printWith (hT : T.Lawful) {w w' : String → Eval Unit}
    (hwrite : ∀ text, T.Goes here (w text) (w' text)) (lineBreak : Bool) (values : List Value) :
    T.Goes here (Evaluator.printWith w lineBreak values)
      (Evaluator.printWith w' lineBreak values) := by
  refine (read hT fun heap => .mapM values heap.ordinary_display).bind hT fun texts => ?_
  refine (hwrite _).bind hT fun _ => ?_
  cases lineBreak with
  | true => exact (hwrite "\n").bind hT fun _ => pure _
  | false => exact pure _

/-- Calls in tandem: of functions, of methods, and of the two that print. -/
theorem Runs.callAny (hT : T.Lawful) (h : T.Runs k k') (hfits : ∀ heap c, T.Fits heap c)
    (pause pause' : Eval Unit) {w w' : String → Eval Unit}
    (hwrite : ∀ text, T.Goes none (w text) (w' text)) (callee : Value) (arguments : List Value) :
    T.Goes none
      ((Watch.doing pause w).call callee arguments (k.callAny callee arguments))
      ((Watch.doing pause' w').call callee arguments (k'.callAny callee arguments)) := by
  cases callee with
  | function closure => exact h.callClosure hT closure arguments fun _ _ _ _ _ => hfits _ _
  | builtin builtin =>
    cases builtin with
    | print => exact .printWith hT hwrite false arguments
    | println => exact .printWith hT hwrite true arguments
    | len =>
      exact (Goes.read hT fun heap => Evaluator.ordinary_lengthOf heap arguments).bindPure hT _
    | arrayMethod stamp method array => exact h.callArrayMethod hT method array arguments
    | stringMethod stamp method text => exact .pure _
  | _ => exact .fail hT ⟨nofun, nofun⟩

/-! ## Levels -/

/-- The tandem in which no two machines meet: only the right run is left, and it is ahead. -/
def alone (T : Tandem) : Tandem where
  Meets _ _ := False
  HeldAlike _ _ := True
  Matches _ _ := True
  excuses _ := False
  Ahead := T.Ahead
  lasting := False
  Fits _ _ := True

/-- Of runs that never meet nothing is asked. -/
theorem lawful_alone (hT : T.Lawful) : T.alone.Lawful where
  heap := False.elim
  root := False.elim
  entryPoint := False.elim
  stamps := False.elim
  setHeap hm := hm.elim
  stamped := False.elim
  heldTotal vs := ⟨vs, trivial⟩
  heldCons _ _ := trivial
  held := False.elim
  setHeld _ hm := hm.elim
  enter hm := hm.elim
  leave hm := hm.elim
  deepen := False.elim
  surface hm := hm.elim
  checkDepth := ⟨fun _ _ hm => hm.elim, hT.checkDepth.staysAhead⟩
  fitsLater _ _ := trivial
  fitsInside _ := trivial
  ordinary _ := trivial
  outOfFuel h := h.elim

/-- There to go together is to stay ahead. -/
theorem goes_alone_iff {α : Type} {x y : Eval α} :
    T.alone.Goes here x y ↔ T.StaysAhead y :=
  ⟨Goes.staysAhead, fun h => ⟨fun _ _ hm => hm.elim, h⟩⟩

/-- Induction on the levels of the left run. -/
theorem runs_doing_of_alone (hT : T.Lawful) (hfits : ∀ heap c, T.Fits heap c)
    {pause pause' : Eval Unit} {w w' : String → Eval Unit}
    (hpause : ∀ c, T.Goes (some c) pause pause') (hwrite : ∀ text, T.Goes none (w text) (w' text))
    {n n' : Nat} (hbound : T.Bounds n n')
    (halone : T.excuses .outOfFuel → ∀ n, T.alone.Runs (Evaluator.watched (.doing pause' w') n)
      (Evaluator.watched (.doing pause' w') n)) :
    T.Runs (Evaluator.watched (.doing pause w) n) (Evaluator.watched (.doing pause' w') n') := by
  induction n generalizing n' with
  | zero =>
    rcases hbound with ⟨rfl, hmatches⟩ | ⟨hexcuses, hle⟩
    · exact ⟨.inl ⟨rfl, hmatches⟩, hpause, fun _ _ => .halts hmatches, fun _ _ => .halts hmatches,
        fun _ _ => .halts hmatches⟩
    · have hright := halone hexcuses n'
      refine ⟨?_, ?_, fun c e => ?_, fun c s => ?_, fun callee arguments => ?_⟩
      · cases n' <;> exact .inr ⟨hexcuses, hle⟩
      · cases n' <;> exact hpause
      · exact .outOfFuel hT hexcuses (hright.evaluate c e).staysAhead
      · exact .outOfFuel hT hexcuses (hright.execute c s).staysAhead
      · exact .outOfFuel hT hexcuses (hright.call callee arguments).staysAhead
  | succ n ih =>
    obtain ⟨n', rfl⟩ : ∃ less, n' = less + 1 := by
      rcases hbound with ⟨rfl, -⟩ | ⟨-, hle⟩
      · exact ⟨n, rfl⟩
      · exact ⟨n' - 1, by omega⟩
    have hbelow := ih (hbound.imp (fun h => ⟨Nat.succ.inj h.1, h.2⟩)
      fun h => ⟨h.1, Nat.le_of_succ_le_succ h.2⟩)
    exact ⟨hbound, hpause, fun c e => (hbelow.express hT e).kept hT,
      fun c s => (hbelow.perform hT s).lettingGo hT,
      fun callee arguments => hbelow.callAny hT hfits pause pause' hwrite callee arguments⟩

/-- If pauses and writes go together, so do whole evaluators. -/
theorem runs_doing (hT : T.Lawful) (hfits : ∀ heap c, T.Fits heap c)
    {pause pause' : Eval Unit} {w w' : String → Eval Unit}
    (hpause : ∀ c, T.Goes (some c) pause pause') (hwrite : ∀ text, T.Goes none (w text) (w' text))
    {n n' : Nat} (hbound : T.Bounds n n') :
    T.Runs (Evaluator.watched (.doing pause w) n) (Evaluator.watched (.doing pause' w') n') :=
  runs_doing_of_alone hT hfits hpause hwrite hbound fun _ _ =>
    runs_doing_of_alone (lawful_alone hT) (fun _ _ => trivial)
      (fun c => goes_alone_iff.2 (hpause c).staysAhead)
      (fun text => goes_alone_iff.2 (hwrite text).staysAhead) (.inl ⟨rfl, trivial⟩) False.elim

/-! ## Scripts -/

/-- The sinks of both runs flush well. -/
structure Flushes (T : Tandem) : Prop where
  meets : ∀ {m m'}, T.Meets m m' → m.sink.failsFlush = false ∧ m'.sink.failsFlush = false
  ahead : ∀ {s s'}, T.Ahead s s' → s.failsFlush = false ∧ s'.failsFlush = false

/-- A sink that takes everything is flushed without effect. -/
theorem flushing_of_false {x : Eval Value} {m : Machine}
    (h : (final (x m)).sink.failsFlush = false) : Evaluator.flushing x m = x m := by
  unfold Evaluator.flushing
  cases hresult : x m with
  | ok a n =>
    rw [hresult] at h
    exact if_neg (Bool.eq_false_iff.1 h)
  | error halt n =>
    rw [hresult] at h
    cases halt with
    | outOfFuel => rfl
    | failed e => exact if_neg (Bool.eq_false_iff.1 h)

/-- Flushing goes together at any end. -/
theorem Goes.flushing (hT : T.Flushes) {x y : Eval Value} (h : T.Goes here x y) :
    T.Goes here (Evaluator.flushing x) (Evaluator.flushing y) := by
  refine ⟨fun m m' hm hready => ?_, fun stopped m hm => ?_⟩
  · have hends := h.together m m' hm hready
    have hflush : (final (x m)).sink.failsFlush = false ∧
        (final (y m')).sink.failsFlush = false := by
      generalize x m = r at hends
      generalize y m' = s at hends
      cases hends with
      | ok meets _ => exact hT.meets meets
      | error _ meets => exact hT.meets meets
      | stopped _ ahead => exact hT.ahead ahead
    rw [flushing_of_false hflush.1, flushing_of_false hflush.2]
    exact hends
  · rw [Evaluator.reached_flushing]
    exact h.staysAhead stopped m hm

/-- Both find the same entry point. -/
theorem Goes.entryPoint (hT : T.Lawful) :
    T.Goes here Evaluator.entryPoint Evaluator.entryPoint := by
  have hroot : ∀ (root : ScopeId) (name : String), T.Goes here (Eval.read (·.valueOf root name))
      (Eval.read (·.valueOf root name)) := fun root name =>
    read hT fun heap => heap.ordinary_valueOf root name
  refine ⟨fun m m' hm hready => ?_, fun stopped m hm => ?_⟩
  · unfold Evaluator.entryPoint
    rw [← hT.root hm, ← hT.entryPoint hm]
    exact (hroot m.root m.config.entryPoint).together m m' hm hready
  · exact (hroot m.root m.config.entryPoint).staysAhead stopped m hm

/-- Evaluators in tandem run a script in tandem. -/
theorem Runs.runScript (hT : T.Lawful) (hflush : T.Flushes) (h : T.Runs k k')
    (program : Program) :
    T.Goes (some c) (k.runScript program) (k'.runScript program) := by
  have hstatements : T.Goes (some c)
      (program.statements.forM fun statement => do k.execute statement; k.pause)
      (program.statements.forM fun statement => do k'.execute statement; k'.pause) :=
    .forM hT _ fun s => (h.execute c s).bind hT fun _ => h.pause c
  refine hstatements.bind hT fun _ => (Goes.entryPoint hT).bind hT fun entry => ?_
  exact (h.call entry []).anywhere.flushing hflush

end Tandem

end Tao
