/-
  Runs on machines that differ in configuration and sink only.

  The heap, the scopes, the values held and everything else is the same in two such machines, so
  most laws of a tandem hold of them anyway.  What is left to say is how their configurations and
  sinks agree; where the limit on calls is looked at and where texts are written, that has to be
  shown to last.
-/
import Tao.Proofs.Tandem.Run

namespace Tao

/-- The machine with another configuration and another sink. -/
def Machine.facing (m : Machine) (config : Config) (sink : Sink) : Machine :=
  { m with config, sink }

/-- How two runs differ in their configurations and sinks, and how they may end. -/
structure Parallel where
  Agree : Config → Sink → Config → Sink → Prop
  Matches : Halt RuntimeError → Halt RuntimeError → Prop
  excuses : Halt RuntimeError → Prop
  Ahead : Sink → Sink → Prop

namespace Parallel

variable {P : Parallel} {α : Type} {here : Option ScopeId} {x y : Eval α} {m m' : Machine}

/-- The tandem of two such runs. -/
def tandem (P : Parallel) : Tandem where
  Meets m m' := ∃ config sink, m' = m.facing config sink ∧ P.Agree m.config m.sink config sink
  HeldAlike us vs := us = vs
  Matches := P.Matches
  excuses := P.excuses
  Ahead := P.Ahead
  lasting := False
  Fits _ _ := True

/-- What remains to be shown. -/
structure Lawful (P : Parallel) : Prop where
  entryPoint : ∀ {c s c' s'}, P.Agree c s c' s' → c.entryPoint = c'.entryPoint
  gcThreshold : ∀ {c s c' s'}, P.Agree c s c' s' → c.gcThreshold = c'.gcThreshold
  checkDepth : P.tandem.Goes none Evaluator.checkDepth Evaluator.checkDepth
  ordinary : ∀ {e : RuntimeError}, e.IsOrdinary → P.Matches (.failed e) (.failed e)
  outOfFuel : ∀ {c s c' s'}, P.excuses .outOfFuel → P.Agree c s c' s' → P.Ahead s s'
  -- sinks that flush well
  flush : ∀ {c s c' s'}, P.Agree c s c' s' → s.failsFlush = false ∧ s'.failsFlush = false
  flushAhead : ∀ {s s'}, P.Ahead s s' → s.failsFlush = false ∧ s'.failsFlush = false

/-- So a parallel is a tandem, which need not say again what the machines have in common. -/
theorem Lawful.tandem (hP : P.Lawful) : P.tandem.Lawful where
  -- the machines differ in configuration and sink alone
  heap := by
    rintro m _ ⟨c, s, rfl, -⟩
    rfl
  root := by
    rintro m _ ⟨c, s, rfl, -⟩
    rfl
  entryPoint := by
    rintro m _ ⟨c, s, rfl, hagree⟩
    exact hP.entryPoint hagree
  stamps := by
    rintro m _ ⟨c, s, rfl, -⟩
    rfl
  setHeap := by
    rintro m _ heap ⟨c, s, rfl, hagree⟩ -
    exact ⟨c, s, rfl, hagree⟩
  stamped := by
    rintro m _ ⟨c, s, rfl, hagree⟩
    exact ⟨c, s, rfl, hagree⟩
  heldTotal vs := ⟨vs, rfl⟩
  heldCons h u := congrArg (u :: ·) h
  held := by
    rintro m _ ⟨c, s, rfl, -⟩
    rfl
  setHeld := by
    rintro m _ us _ rfl ⟨c, s, rfl, hagree⟩
    exact ⟨c, s, rfl, hagree⟩
  enter := by
    rintro m _ ⟨c, s, rfl, hagree⟩ scope
    exact ⟨c, s, rfl, hagree⟩
  leave := by
    rintro m _ n _ ⟨-, -, rfl, -⟩ ⟨c, s, rfl, hagree⟩
    exact ⟨c, s, rfl, hagree⟩
  deepen := by
    rintro m _ ⟨c, s, rfl, hagree⟩
    exact ⟨c, s, rfl, hagree⟩
  surface := by
    rintro m _ n _ ⟨-, -, rfl, -⟩ ⟨c, s, rfl, hagree⟩
    exact ⟨c, s, rfl, hagree⟩
  checkDepth := hP.checkDepth
  fitsLater _ _ := trivial
  fitsInside _ := trivial
  ordinary := hP.ordinary
  outOfFuel := by
    rintro m _ hexcuses ⟨c, s, rfl, hagree⟩
    exact hP.outOfFuel hexcuses hagree

/-- Sinks that go together are flushed alike. -/
theorem Lawful.flushes (hP : P.Lawful) : P.tandem.Flushes where
  meets := by
    rintro m _ ⟨c, s, rfl, hagree⟩
    exact hP.flush hagree
  ahead := hP.flushAhead

/-- Both collect the same garbage at the same time. -/
theorem Lawful.collectIfGrown (hP : P.Lawful) :
    P.tandem.Goes here Eval.collectIfGrown Eval.collectIfGrown := by
  rw [← Eval.collectWhen_hasGrown]
  refine ⟨?_, .collectWhen _⟩
  rintro m _ ⟨c, s, rfl, hagree⟩ -
  have hgrown : (m.facing c s).hasGrown = m.hasGrown := rfl
  have hthreshold : (m.facing c s).config.gcThreshold = m.config.gcThreshold :=
    (hP.gcThreshold hagree).symm
  unfold Eval.collectWhen
  rw [hgrown, hthreshold]
  by_cases hdue : m.hasGrown = true
  · rw [if_pos hdue, if_pos hdue]
    exact .ok ⟨c, s, rfl, hagree⟩ ⟨rfl, rfl, False.elim⟩
  · rw [if_neg hdue, if_neg hdue]
    exact .ok ⟨c, s, rfl, hagree⟩ .refl

/-- Calls are checked alike where both runs have the same limit. -/
theorem goes_checkDepth
    (hlimit : ∀ {c s c' s'}, P.Agree c s c' s' → c.maxCallDepth = c'.maxCallDepth)
    (hdeep : ∀ limit, P.Matches (.failed (.callsTooDeep limit)) (.failed (.callsTooDeep limit))) :
    P.tandem.Goes here Evaluator.checkDepth Evaluator.checkDepth := by
  refine .checkDepth ?_ ?_ hdeep
  · rintro m _ ⟨c, s, rfl, -⟩
    rfl
  · rintro m _ ⟨c, s, rfl, hagree⟩
    exact hlimit hagree

/-- Two runs of a script, if they write in tandem. -/
theorem Lawful.ends (hP : P.Lawful) {w w' : String → Eval Unit}
    (hwrite : ∀ text, P.tandem.Goes none (w text) (w' text)) {n n' : Nat}
    (hbound : P.tandem.Bounds n n') (program : Program) (hm : P.tandem.Meets m m') :
    P.tandem.Ends m m' (program.runWatched (.doing Eval.collectIfGrown w) n m)
      (program.runWatched (.doing Eval.collectIfGrown w') n' m') := by
  have hruns := Tandem.runs_doing hP.tandem (fun _ _ => trivial) (fun _ => hP.collectIfGrown)
    hwrite hbound
  obtain ⟨c, s, rfl, hagree⟩ := hm
  refine (hruns.runScript (c := m.scope) hP.tandem hP.flushes program).together _ _
    ⟨c, s, rfl, hagree⟩ ?_
  rintro _ ⟨⟩
  exact ⟨rfl, rfl, trivial⟩

end Parallel

/-- A run that writes to the sink, as all runs do. -/
theorem Program.runWatched_doing_usual (fuel : Nat) (program : Program) :
    program.runWatched (.doing Eval.collectIfGrown Eval.write) fuel = program.run fuel := by
  unfold runWatched run
  rw [Evaluator.watched_doing_usual]

end Tao
