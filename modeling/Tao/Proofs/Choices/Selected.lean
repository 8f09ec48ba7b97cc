/-
  Which body a choice runs.

  A choice goes through its groups and, in each, through the labels, and leaves both loops at the
  first match.  All that matters is the list of all labels in source order, each with the body that
  it leads to (`labelled`): some of them are missed, one after another, and then one of them matches
  or halts, or none is left.  `Selects` says what each of these comes to; it holds of what a choice
  does and of nothing else (`runChoice_eq_iff`), whatever evaluator it is given.

  The body runs in a scope made for it inside of the active one (`RunsInChild`).
-/
import Tao.Evaluator.Statement
import Tao.Proofs.Heap.Cells
import Tao.Proofs.Looking

namespace Tao

variable {k : Evaluator} {subject value : Value} {m now next : Machine} {label : Expression}
  {labels : List Expression} {halt : Halt RuntimeError}

/-! ## Labels in source order -/

/-- All labels in source order, each with the body of its group. -/
def CaseGroup.labelled (groups : List CaseGroup) : List (Expression × List Statement) :=
  groups.flatMap fun | .mk labels body => labels.map (·, body)

namespace Evaluator

/-- The body of the first label that is the same value as the subject. -/
def firstMatch (k : Evaluator) (subject : Value) :
    List (Expression × List Statement) → Eval (Option (List Statement))
  | [] => pure none
  | (label, body) :: rest => do
    let value ← k.evaluate label
    if value.same subject then
      return some body
    else
      k.firstMatch subject rest

/-- The labels of one group before those of others. -/
theorem firstMatch_group (labels : List Expression) (body : List Statement)
    (rest : List (Expression × List Statement)) :
    k.firstMatch subject (labels.map (·, body) ++ rest) = (do
      if ← k.labelMatches subject labels then
        return some body
      else
        k.firstMatch subject rest) := by
  induction labels with
  | nil => rfl
  | cons label labels ih =>
    show (k.evaluate label >>= fun value => if value.same subject then pure (some body)
      else k.firstMatch subject (labels.map (·, body) ++ rest)) = _
    unfold labelMatches
    rw [bind_assoc, ih]
    refine congrArg (k.evaluate label >>= ·) (funext fun value => ?_)
    cases value.same subject <;> rfl

/-- Going through groups is going through all their labels in source order. -/
theorem chosenGroup_eq_firstMatch (groups : List CaseGroup) :
    k.chosenGroup subject groups = k.firstMatch subject (CaseGroup.labelled groups) := by
  induction groups with
  | nil => rfl
  | cons group rest ih =>
    obtain ⟨labels, body⟩ := group
    have hcons : CaseGroup.labelled (.mk labels body :: rest) =
        labels.map (·, body) ++ CaseGroup.labelled rest := rfl
    rw [hcons, firstMatch_group, ← ih]
    rfl

/-! ## Going through them -/

/-- These labels are evaluated one after another, and none is the same value as the subject. -/
inductive Misses (k : Evaluator) (subject : Value) :
    List Expression → Machine → Machine → Prop where
  | none (m : Machine) : Misses k subject [] m m
  | more {label : Expression} {labels : List Expression} {value : Value} {m now next : Machine}
    (evaluates : k.evaluate label m = .ok value now) (differs : value.same subject = false)
    (misses : Misses k subject labels now next) : Misses k subject (label :: labels) m next

/-- What is missed makes way for the rest. -/
theorem Misses.firstMatch {missed : List (Expression × List Statement)}
    (h : k.Misses subject (missed.map Prod.fst) m now) (rest : List (Expression × List Statement)) :
    k.firstMatch subject (missed ++ rest) m = k.firstMatch subject rest now := by
  induction missed generalizing m with
  | nil =>
    cases h
    rfl
  | cons entry missed ih =>
    obtain ⟨label, body⟩ := entry
    cases h with
    | more evaluates differs misses =>
      show (k.evaluate label >>= _) m = _
      rw [EStateM.bind_apply, evaluates]
      simp only [differs]
      exact ih misses

/-- How going through labels ends. -/
inductive Passes (k : Evaluator) (subject : Value) (m : Machine) :
    List (Expression × List Statement) → Eval.Result (Option (List Statement)) → Prop where
  | halts (missed : List (Expression × List Statement))
    {rest : List (Expression × List Statement)} {label : Expression} {body : List Statement}
    {now next : Machine} {halt : Halt RuntimeError}
    (misses : k.Misses subject (missed.map Prod.fst) m now)
    (here : k.evaluate label now = .error halt next) :
    Passes k subject m (missed ++ (label, body) :: rest) (.error halt next)
  | matches (missed : List (Expression × List Statement))
    {rest : List (Expression × List Statement)} {label : Expression} {body : List Statement}
    {now next : Machine} {value : Value}
    (misses : k.Misses subject (missed.map Prod.fst) m now)
    (here : k.evaluate label now = .ok value next) (same : value.same subject = true) :
    Passes k subject m (missed ++ (label, body) :: rest) (.ok (some body) next)
  | misses {all : List (Expression × List Statement)} {now : Machine}
    (misses : k.Misses subject (all.map Prod.fst) m now) : Passes k subject m all (.ok none now)

/-- One more label is missed before. -/
theorem Passes.cons {all : List (Expression × List Statement)} {body : List Statement}
    {r : Eval.Result (Option (List Statement))} (evaluates : k.evaluate label m = .ok value now)
    (differs : value.same subject = false) (h : k.Passes subject now all r) :
    k.Passes subject m ((label, body) :: all) r := by
  cases h with
  | @halts missed _ _ _ _ _ _ misses here =>
    exact .halts ((label, body) :: missed) (.more evaluates differs misses) here
  | @«matches» missed _ _ _ _ _ _ misses here same =>
    exact .matches ((label, body) :: missed) (.more evaluates differs misses) here same
  | misses misses => exact .misses (.more evaluates differs misses)

/-- Going through labels always ends in one of the ways of `Passes`.  Induction on the labels. -/
theorem passes_firstMatch (all : List (Expression × List Statement)) (m : Machine) :
    k.Passes subject m all (k.firstMatch subject all m) := by
  induction all generalizing m with
  | nil => exact .misses (.none m)
  | cons entry rest ih =>
    obtain ⟨label, body⟩ := entry
    have hfirst : k.firstMatch subject ((label, body) :: rest) m =
        (k.evaluate label >>= fun value => if value.same subject then pure (some body)
          else k.firstMatch subject rest) m := rfl
    rw [hfirst, EStateM.bind_apply]
    cases hvalue : k.evaluate label m with
    | error halt next => exact .halts [] (.none m) hvalue
    | ok value now =>
      dsimp only
      cases hsame : value.same subject with
      | true => exact .matches [] (.none m) hvalue hsame
      | false => exact .cons hvalue hsame (ih now)

/-- There is but one way to end. -/
theorem Passes.eq {all : List (Expression × List Statement)}
    {r : Eval.Result (Option (List Statement))} (h : k.Passes subject m all r) :
    k.firstMatch subject all m = r := by
  cases h with
  | «matches» missed misses here same =>
    rw [misses.firstMatch]
    show (k.evaluate _ >>= _) _ = _
    rw [EStateM.bind_of_ok here]
    exact congrFun (if_pos same) _
  | halts missed misses here =>
    rw [misses.firstMatch]
    exact EStateM.bind_of_error here
  | misses misses =>
    have hall := misses.firstMatch []
    rwa [List.append_nil] at hall

/-! ## The body -/

/-- Takes the signals of the scope that a body ran in down, and hands on what it returned.  That it
    broke is forgotten. -/
def handOver (child outer : ScopeId) : Eval Unit := do
  let (_, returned) ← Eval.store (Store.lowerSignals child)
  match returned with
  | some value => Eval.store (Store.setReturned outer value)
  | none => pure ()

/-- Executes the body that was chosen. -/
def runChosen (k : Evaluator) (body : List Statement) : Eval Unit := do
  let outer ← Eval.activeScope
  let child ← Eval.newScope outer
  k.runBlock child body
  handOver child outer

/-- A body runs in a new scope inside of the active one, to which it then hands over. -/
structure RunsInChild (k : Evaluator) (body : List Statement) (m : Machine) (child : ScopeId)
    (heap : Heap) : Prop where
  made : m.heap.addScope (.inside (some m.scope)) = (heap, child)
  fresh : m.heap.scopes.get? child = none
  inside : heap.scopes.get? child = some (.inside (some m.scope))
  runs : k.runChosen body m =
    (k.runBlock child body >>= fun _ => handOver child m.scope) { m with heap }

/-- In a well-formed heap the scope for a body is a new one. -/
theorem exists_runsInChild (k : Evaluator) (body : List Statement) (hwf : m.heap.WellFormed) :
    ∃ child heap, k.RunsInChild body m child heap :=
  ⟨_, _, rfl, Arena.get?_new hwf.scopes _, Arena.get?_insert_self hwf.scopes _, rfl⟩

/-! ## The whole choice -/

/-- What a choice among `entries` comes to.  The subject is evaluated first, and then the labels;
    what halts there ends the choice before any body is run.  The default body stands in where no
    label matches. -/
inductive Selects (k : Evaluator) (subject : Expression)
    (entries : List (Expression × List Statement)) (otherwise : Option (List Statement))
    (m : Machine) : Eval.Result Unit → Prop where
  | subjectHalts {halt : Halt RuntimeError} {next : Machine}
    (here : k.evaluate subject m = .error halt next) :
    Selects k subject entries otherwise m (.error halt next)
  | labelHalts {value : Value} {halt : Halt RuntimeError} {now next : Machine}
    (evaluates : k.evaluate subject m = .ok value now)
    (passes : k.Passes value now entries (.error halt next)) :
    Selects k subject entries otherwise m (.error halt next)
  | runs {value : Value} {chosen : Option (List Statement)} {body : List Statement}
    {now next : Machine} (evaluates : k.evaluate subject m = .ok value now)
    (passes : k.Passes value now entries (.ok chosen next))
    (which : chosen.or otherwise = some body) :
    Selects k subject entries otherwise m (k.runChosen body next)
  | runsNone {value : Value} {now next : Machine} (evaluates : k.evaluate subject m = .ok value now)
    (passes : k.Passes value now entries (.ok none next)) (noDefault : otherwise = none) :
    Selects k subject entries otherwise m (.ok () next)

/-- A choice in its stages: the subject, the labels, and the body that was chosen or stands in. -/
theorem runChoice_eq (subject : Expression) (groups : List CaseGroup)
    (otherwise : Option (List Statement)) :
    k.runChoice subject groups otherwise = k.evaluate subject >>= fun value =>
      k.firstMatch value (CaseGroup.labelled groups) >>= fun chosen =>
        match chosen.or otherwise with
        | none => pure ()
        | some body => k.runChosen body := by
  unfold runChoice
  simp only [chosenGroup_eq_firstMatch]
  rfl

/-- A choice does what `Selects` says, and nothing else. -/
theorem runChoice_eq_iff {subject : Expression} {groups : List CaseGroup}
    {otherwise : Option (List Statement)} {r : Eval.Result Unit} :
    k.runChoice subject groups otherwise m = r ↔
      k.Selects subject (CaseGroup.labelled groups) otherwise m r := by
  rw [runChoice_eq, EStateM.bind_apply]
  constructor
  · rintro rfl
    cases hsubject : k.evaluate subject m with
    | error halt next => exact .subjectHalts hsubject
    | ok value now =>
      dsimp only
      rw [EStateM.bind_apply]
      have hpasses : k.Passes value now _ _ :=
        k.passes_firstMatch (CaseGroup.labelled groups) now
      generalize k.firstMatch value (CaseGroup.labelled groups) now = r at hpasses
      cases r with
      | error halt next => exact .labelHalts hsubject hpasses
      | ok chosen next =>
        dsimp only
        cases hwhich : chosen.or otherwise with
        | some body => exact .runs hsubject hpasses hwhich
        | none =>
          obtain ⟨rfl, hnone⟩ := Option.or_eq_none_iff.1 hwhich
          exact .runsNone hsubject hpasses hnone
  · intro h
    cases h with
    | subjectHalts here => rw [here]
    | labelHalts evaluates passes =>
      rw [evaluates]
      dsimp only
      rw [EStateM.bind_apply, passes.eq]
    | runs evaluates passes which =>
      rw [evaluates]
      dsimp only
      rw [EStateM.bind_apply, passes.eq]
      simp only [which]
    | runsNone evaluates passes noDefault =>
      rw [evaluates]
      dsimp only
      rw [EStateM.bind_apply, passes.eq]
      simp only [noDefault]
      rfl

end Evaluator

end Tao
