/-
  How deep calls can nest.

  1. **Counting calls** (`Evaluator.nesting`) — an evaluator that counts calls by itself and takes
     no notice of the depth noted in the machine: it allows so many calls to be under way at a
     time, and raises an alarm when there is to be another one.

  2. **Functions of scripts** — the limit on depth is one on these alone: to run with it is to allow
     that many calls of functions at a time and to fail with the error for too deep a recursion
     instead of another one.

  3. **All calls** — between two functions at most one built-in one is under way as long as no
     method that calls back is itself called back.  So all calls together number at most
     `2 * maxCallDepth + 2`.

  4. **Methods that call methods** — otherwise nothing limits them: an array that holds its own
     `each`, given this very method, calls it again and again, one call deeper each time.
-/
import Mathlib
import Tao.Proofs.Nesting.Agree
import Tao.Proofs.Parser.Canonical
import Tao.Proofs.Sequence

namespace Tao

open Eval (SameOn)
open Machine (At)

/-! ## Counting calls -/

/-- The watch that raises the alarm when a method that calls back is itself called back. -/
def Watch.direct (alarm : Halt RuntimeError) (w : Watch) : Watch :=
  { w with
    callBack := fun callee arguments x =>
      if callee.callsBack then throw alarm else w.callBack callee arguments x }

/-- Is this a function that a script defines? -/
def Value.isFunction : Value → Bool
  | .function _ => true
  | _ => false

namespace Evaluator

/-- The evaluator for whatever takes at most `n` levels, in which at most `allowed` more calls of
    what `counts` are under way at a time.  Another one raises the alarm. -/
def nesting (alarm : Halt RuntimeError) (counts : Value → Bool) (watch : Watch) :
    Nat → Nat → Evaluator
  | 0, _ => watched watch 0
  | n + 1, allowed =>
    let below := nesting alarm counts watch n
    { bound := n + 1
      pause := watch.pause
      evaluate := fun expression =>
        watch.evaluate expression (Eval.kept ((below allowed).express expression))
      execute := fun statement =>
        watch.execute statement (Eval.lettingGo ((below allowed).perform statement))
      call := fun callee arguments =>
        match counts callee, allowed with
        | true, 0 => throw alarm
        | true, fewer + 1 =>
          watch.call callee arguments (((below fewer).callingBack watch).callAny callee arguments)
        | false, allowed =>
          watch.call callee arguments
            (((below allowed).callingBack watch).callAny callee arguments) }

end Evaluator

/-- Runs a parsed script with a given amount of fuel, and at most `allowed` calls under way at a
    time of what `counts`. -/
def Program.runNesting (alarm : Halt RuntimeError) (counts : Value → Bool) (watch : Watch)
    (allowed fuel : Nat) (program : Program) : Eval Value :=
  (Evaluator.nesting alarm counts watch fuel allowed).runScript program

variable {depth : Nat} {config : Config} {k k' : Evaluator} {due : Machine → Bool}
  {alarm alarm' : Halt RuntimeError}

/-- A watch for direct calls gives back what it was given. -/
theorem Watch.givesBack_direct (alarm : Halt RuntimeError) (due : Machine → Bool) :
    (Watch.direct alarm (.idle due)).GivesBack where
  pause _ _ := .collectWhen due
  evaluate h := h
  execute h := h
  call h := h
  callBack {exact base callee arguments x} h := by
    show Eval.Balanced exact base (if callee.callsBack then throw alarm else x)
    split
    · exact .throw _
    · exact h

namespace Evaluator

/-- Any call, with what it takes to call a function and to be called by a method. -/
theorem sameOn_callAny (hk : k.GivesBack) (hbound : k.bound = k'.bound) (callee : Value)
    (arguments : List Value)
    (hclosure : callee.isFunction = true → depth < config.maxCallDepth →
      Agrees (depth + 1) config k k')
    (hcall : callee.callsBack = true → SameCalls depth config k k') :
    SameOn (At depth config) (k.callAny callee arguments) (k'.callAny callee arguments) := by
  cases callee with
  | function closure => exact sameOn_callClosure hk (hclosure rfl) closure arguments
  | builtin builtin => exact sameOn_callBuiltin hk hbound builtin arguments hcall
  | _ => exact .refl

/-! ## Functions of scripts -/

/-- The depth noted in the machine and the calls still allowed add up to the limit.  Induction on
    fuel: a function that is called is one deeper, and one fewer is allowed. -/
theorem agrees_nesting_functions (due : Machine → Bool) (n : Nat) :
    ∀ allowed depth, depth + allowed = config.maxCallDepth →
      Agrees depth config (watched (.idle due) n)
        (nesting (.failed (.callsTooDeep config.maxCallDepth)) Value.isFunction (.idle due) n
          allowed) := by
  induction n with
  | zero => exact fun _ _ _ => ⟨rfl, rfl, fun _ => .refl, fun _ => .refl, fun _ _ => .refl⟩
  | succ n ih =>
    intro allowed depth hsum
    have hk := givesBack_watched (Watch.givesBack_idle due) n
    have hsame := ih allowed depth hsum
    refine ⟨rfl, rfl, fun e => (hsame.express hk e).kept, fun s => (hsame.perform hk s).lettingGo,
      fun callee arguments => ?_⟩
    cases hcounts : callee.isFunction with
    | false =>
      have hcallee : SameOn (At depth config) _ _ :=
        sameOn_callAny hk hsame.bound callee arguments
          (fun hfunction => absurd (hcounts.symm.trans hfunction) Bool.false_ne_true)
          fun _ => hsame.call
      unfold nesting
      dsimp only
      rw [hcounts]
      exact hcallee
    | true =>
      cases allowed with
      | zero =>
        -- as many calls are under way as the limit allows
        intro m hm
        have hdeep : m.config.maxCallDepth ≤ m.depth := by
          rw [hm.1, hm.2]
          omega
        cases callee with
        | function closure =>
          show EStateM.bind checkDepth _ m = .error (.failed (.callsTooDeep config.maxCallDepth)) m
          unfold EStateM.bind checkDepth
          rw [if_pos hdeep, hm.2]
        | _ => cases hcounts
      | succ fewer =>
        have hcallee : SameOn (At depth config) _ _ :=
          sameOn_callAny hk (ih fewer (depth + 1) (by omega)).bound callee arguments
            (fun _ _ => ih fewer (depth + 1) (by omega)) fun hback => by
              cases callee with
              | builtin builtin => cases hcounts
              | _ => cases hback
        unfold nesting
        dsimp only
        rw [hcounts]
        exact hcallee

/-! ## All calls -/

/-- A method that calls back may not be called back, so less is asked of what it calls. -/
theorem Agrees.callingBack (h : Agrees depth config k k') :
    Agrees depth config (k.callingBack (.direct alarm (.idle due)))
      (k'.callingBack (.direct alarm (.idle due))) where
  bound := h.bound
  pause := h.pause
  evaluate := h.evaluate
  execute := h.execute
  call callee arguments := by
    show SameOn _ (if callee.callsBack then throw alarm else k.call callee arguments)
      (if callee.callsBack then throw alarm else k'.call callee arguments)
    split
    · exact .refl
    · exact h.call callee arguments

/-- With every call counted, a function of the script and a method that it hands on use up two at
    each depth, and a last method may be called at the limit.  Both parts are shown together, by
    induction on the levels. -/
theorem agrees_nesting_all (due : Machine → Bool) (alarm alarm' : Halt RuntimeError) (n : Nat) :
    (∀ allowed depth, 2 * (config.maxCallDepth - depth) + 2 ≤ allowed →
      Agrees depth config (watched (.direct alarm' (.idle due)) n)
        (nesting alarm (fun _ => true) (.direct alarm' (.idle due)) n allowed)) ∧
    ∀ allowed depth, 2 * (config.maxCallDepth - depth) + 1 ≤ allowed →
      SameCalls depth config
        ((watched (.direct alarm' (.idle due)) n).callingBack (.direct alarm' (.idle due)))
        ((nesting alarm (fun _ => true) (.direct alarm' (.idle due)) n allowed).callingBack
          (.direct alarm' (.idle due))) := by
  induction n with
  | zero =>
    exact ⟨fun _ _ _ => ⟨rfl, rfl, fun _ => .refl, fun _ => .refl, fun _ _ => .refl⟩,
      fun _ _ _ _ _ => .refl⟩
  | succ n ih =>
    have hk := givesBack_watched (Watch.givesBack_direct alarm' due) n
    have hback := hk.callingBack (Watch.givesBack_direct alarm' due)
    -- a call takes one of those allowed, and a function two of them for one that the limit counts
    have hcall : ∀ fewer depth callee arguments, 2 * (config.maxCallDepth - depth) ≤ fewer →
        (callee.callsBack = true → 2 * (config.maxCallDepth - depth) + 1 ≤ fewer) →
        SameOn (At depth config)
          ((watched (.direct alarm' (.idle due)) (n + 1)).call callee arguments)
          ((nesting alarm (fun _ => true) (.direct alarm' (.idle due)) (n + 1) (fewer + 1)).call
            callee arguments) := by
      intro fewer depth callee arguments hfunction hmethod
      refine sameOn_callAny hback ?_ callee arguments
        (fun _ hdeep => (ih.1 fewer (depth + 1) (by omega)).callingBack)
        fun hcallsBack => ih.2 fewer depth (hmethod hcallsBack)
      cases n <;> rfl
    constructor
    · intro allowed depth hallowed
      have hsame := ih.1 allowed depth hallowed
      refine ⟨rfl, rfl, fun e => (hsame.express hk e).kept, fun s => (hsame.perform hk s).lettingGo,
        fun callee arguments => ?_⟩
      obtain ⟨fewer, rfl⟩ : ∃ fewer, allowed = fewer + 1 := ⟨allowed - 1, by omega⟩
      exact hcall fewer depth callee arguments (by omega) fun _ => by omega
    · intro allowed depth hallowed callee arguments
      obtain ⟨fewer, rfl⟩ : ∃ fewer, allowed = fewer + 1 := ⟨allowed - 1, by omega⟩
      show SameOn _ (if callee.callsBack then throw alarm' else _)
        (if callee.callsBack then throw alarm' else _)
      split
      · exact .refl
      · next hplain =>
        exact hcall fewer depth callee arguments (by omega) fun hcallsBack =>
          absurd hcallsBack hplain

end Evaluator

/-! ## Methods that call methods -/

namespace Evaluator

variable {m : Machine} {array : ArrayId} {cell : ArrayCell} {stamp : Nat}

/-- Called with itself, the `each` of an array whose first element it is calls itself again.
    Induction on the calls that are still allowed. -/
theorem nesting_each_itself (alarm : Halt RuntimeError) (due : Machine → Bool)
    (hcell : m.heap.arrays.get? array = some cell)
    (hfirst : cell.elements[0]? = some (.builtin (.arrayMethod stamp .each array)))
    (allowed n : Nat) (hfuel : allowed ≤ n) (arguments : List Value) :
    (nesting alarm (fun _ => true) (.idle due) (n + 1) allowed).call
      (.builtin (.arrayMethod stamp .each array))
      (.builtin (.arrayMethod stamp .each array) :: arguments) m = .error alarm m := by
  induction allowed generalizing n arguments with
  | zero => rfl
  | succ fewer ih =>
    obtain ⟨n, rfl⟩ : ∃ less, n = less + 1 := ⟨n - 1, by omega⟩
    have hread : Eval.read (elementNow array 0) m =
        .ok (some (.builtin (.arrayMethod stamp .each array))) m := by
      have hnow : elementNow array 0 m.heap =
          .ok (some (.builtin (.arrayMethod stamp .each array))) := by
        unfold elementNow Heap.array
        rw [hcell, ← hfirst]
        rfl
      unfold Eval.read
      rw [hnow]
    -- the first turn reads the first element and calls the method with it
    refine (EStateM.bind_of_ok rfl).trans (EStateM.bind_of_error (EStateM.bind_of_error ?_))
    exact (EStateM.bind_of_ok hread).trans (EStateM.bind_of_error (ih n (by omega) _))

end Evaluator

/-- The statements of a script that put the `each` of an array into this very array. -/
def Statement.puttingEach : List Statement :=
  [.define "a" (some (.array [.literal .nil])),
    .define "f" (some (.assign (.index (.name "a") (.literal (.number 0)))
      (.index (.name "a") (.literal (.string "each")))))]

/-- A script in which the `each` of an array calls itself:
    `let a = [nil]; let f = a[0] = a["each"]; let g = f(f);`. -/
def Program.callingEach : Program :=
  ⟨Statement.puttingEach ++ [.define "g" (some (.call (.name "f") [.name "f"]))]⟩

namespace Evaluator

/-- The array holds its `each`, and `f` is the name of this method. -/
def HoldsEach (m : Machine) : Prop :=
  ∃ stamp array cell, m.heap.arrays.get? array = some cell ∧
    cell.elements[0]? = some (.builtin (.arrayMethod stamp .each array)) ∧
    m.heap.valueOf m.scope "f" = .ok (.builtin (.arrayMethod stamp .each array))

/-- The first statements leave an array that holds its own method, in whatever evaluator they
    run. -/
theorem puttingEach_spec (alarm : Halt RuntimeError) (depth allowed n : Nat) :
    ∃ m, (Statement.puttingEach.forM fun statement => do
      (nesting alarm (fun _ => true) (.idle Machine.hasGrown) (n + 9) allowed).execute statement
      (nesting alarm (fun _ => true) (.idle Machine.hasGrown) (n + 9) allowed).pause)
        (.start { maxCallDepth := depth } .unlimited) = .ok () m ∧ HoldsEach m := by
  generalize hresult : (Statement.puttingEach.forM fun statement => do
      (nesting alarm (fun _ => true) (.idle Machine.hasGrown) (n + 9) allowed).execute statement
      (nesting alarm (fun _ => true) (.idle Machine.hasGrown) (n + 9) allowed).pause)
        (.start { maxCallDepth := depth } .unlimited) = result
  have hfacts : (match result with
      | .ok _ m => some ((m.heap.arrays.get? ⟨0, 0⟩).map (·.elements.toList),
          m.heap.valueOf m.scope "f")
      | .error _ _ => none) = some (some [.builtin (.arrayMethod 0 .each ⟨0, 0⟩)],
        .ok (.builtin (.arrayMethod 0 .each ⟨0, 0⟩))) := by
    rw [← hresult]
    cbv
  cases result with
  | error halt m => cases hfacts
  | ok _ m =>
    obtain ⟨hcell, hname⟩ := Prod.mk.inj (Option.some.inj hfacts)
    obtain ⟨cell, hcell, helements⟩ := Option.map_eq_some_iff.1 hcell
    refine ⟨m, rfl, 0, ⟨0, 0⟩, cell, hcell, ?_, hname⟩
    rw [← Array.getElem?_toList, helements]
    rfl

/-- The call of the method with itself, from where its name is evaluated twice. -/
theorem callingItself_spec {m : Machine} (hm : HoldsEach m) (alarm : Halt RuntimeError)
    (allowed n : Nat) (hfuel : allowed ≤ n) :
    ∃ m', (nesting alarm (fun _ => true) (.idle Machine.hasGrown) (n + 4) allowed).execute
      (.define "g" (some (.call (.name "f") [.name "f"]))) m = .error alarm m' := by
  obtain ⟨stamp, array, cell, hcell, hfirst, hname⟩ := hm
  have hload : ∀ held, (nesting alarm (fun _ => true) (.idle Machine.hasGrown) (n + 2)
      allowed).evaluate (.name "f") { m with held } =
      .ok (.builtin (.arrayMethod stamp .each array))
        { m with held := .builtin (.arrayMethod stamp .each array) :: held } := by
    intro held
    have hread : Eval.read (·.valueOf m.scope "f") { m with held } =
        .ok (.builtin (.arrayMethod stamp .each array)) { m with held } := by
      unfold Eval.read
      dsimp only
      rw [hname]
    have hplace : (Place.name "f").load { m with held } =
        .ok (.builtin (.arrayMethod stamp .each array)) { m with held } :=
      (EStateM.bind_of_ok rfl).trans hread
    exact EStateM.bind_of_ok hplace
  -- the method and its argument are evaluated, and each stays held
  have hexpress : ∃ m', (nesting alarm (fun _ => true) (.idle Machine.hasGrown) (n + 2)
      allowed).express (.call (.name "f") [.name "f"]) m = .error alarm m' := by
    let itself := Value.builtin (.arrayMethod stamp .each array)
    have harguments : [Expression.name "f"].mapM
        (nesting alarm (fun _ => true) (.idle Machine.hasGrown) (n + 2) allowed).evaluate
          { m with held := itself :: m.held } =
        .ok [itself] { m with held := itself :: itself :: m.held } := by
      rw [List.mapM_cons]
      exact (EStateM.bind_of_ok (hload (itself :: m.held))).trans rfl
    refine ⟨{ m with held := itself :: itself :: m.held }, ?_⟩
    refine (EStateM.bind_of_ok (hload m.held)).trans ((EStateM.bind_of_ok harguments).trans ?_)
    exact nesting_each_itself (m := { m with held := itself :: itself :: m.held }) alarm _ hcell
      hfirst allowed (n + 1) (by omega) []
  obtain ⟨m', hexpress⟩ := hexpress
  have hevaluate : (nesting alarm (fun _ => true) (.idle Machine.hasGrown) (n + 3)
      allowed).evaluate (.call (.name "f") [.name "f"]) m = .error alarm m' :=
    EStateM.bind_of_error hexpress
  have hperform : (nesting alarm (fun _ => true) (.idle Machine.hasGrown) (n + 3)
      allowed).perform (.define "g" (some (.call (.name "f") [.name "f"]))) m = .error alarm m' :=
    EStateM.bind_of_error hevaluate
  refine ⟨{ m' with held := m.held }, ?_⟩
  show Eval.lettingGo _ m = _
  unfold Eval.lettingGo
  dsimp only
  rw [hperform]

end Evaluator

/-- The script can be written down, so it is one that the parser gives. -/
theorem Program.wellFormed_callingEach : callingEach.WellFormed := by
  have ha : IsName "a" := by decide
  have hf : IsName "f" := by decide
  have hg : IsName "g" := by decide
  have hzero : (0 : Int64) ≤ 0 := by decide
  have hmake : Statement.Everywhere .legal (.define "a" (some (.array [.literal .nil]))) :=
    ⟨ha, trivial, trivial, trivial⟩
  have hput : Statement.Everywhere .legal (.define "f" (some (.assign
      (.index (.name "a") (.literal (.number 0)))
      (.index (.name "a") (.literal (.string "each")))))) :=
    ⟨hf, trivial, ⟨trivial, ha, hzero⟩, trivial, ha, trivial⟩
  have hcall : Statement.Everywhere .legal (.define "g" (some (.call (.name "f") [.name "f"]))) :=
    ⟨hg, trivial, hf, hf, trivial⟩
  refine ⟨⟨hmake, hput, hcall, trivial⟩, ?_⟩
  intro s hs
  simp only [callingEach, Statement.puttingEach, List.cons_append, List.nil_append, List.mem_cons,
    List.not_mem_nil, or_false] at hs
  rcases hs with rfl | rfl | rfl <;> trivial

/-- However many calls are allowed, the run wants to nest them deeper. -/
theorem Program.callingEach_nests (alarm : Halt RuntimeError) (depth allowed n : Nat)
    (hfuel : allowed + 9 ≤ n) :
    ∃ m, callingEach.runNesting alarm (fun _ => true) (.idle Machine.hasGrown) allowed n
      (.start { maxCallDepth := depth } .unlimited) = .error alarm m := by
  obtain ⟨n, rfl⟩ : ∃ more, n = more + 9 := ⟨n - 9, by omega⟩
  obtain ⟨m, hputting, hholds⟩ := Evaluator.puttingEach_spec alarm depth allowed n
  obtain ⟨m', hcalling⟩ :=
    Evaluator.callingItself_spec hholds alarm allowed (n + 5) (by omega)
  refine ⟨m', ?_⟩
  unfold runNesting Evaluator.runScript
  refine EStateM.bind_of_error ?_
  have hstatements : callingEach.statements = Statement.puttingEach ++
      [.define "g" (some (.call (.name "f") [.name "f"]))] := rfl
  rw [hstatements]
  refine (congrFun List.forM_append _).trans ?_
  exact (EStateM.bind_of_ok hputting).trans (EStateM.bind_of_error (EStateM.bind_of_error hcalling))

/-- What the limit on depth limits.

    Functions of scripts: a run is one in which as many of them as the limit allows may be under way
    at a time, and another one is the error for too deep a recursion.

    All calls, where no method that calls back may be called back: at most twice as many and two.

    All calls whatsoever are not limited: there is a script that is parsed in which more calls are
    under way than any number, at any limit. -/
theorem Program.nesting_limited (program : Program) (config : Config) (sink : Sink) (fuel : Nat) :
    program.runNesting (.failed (.callsTooDeep config.maxCallDepth)) Value.isFunction
        (.idle Machine.hasGrown) config.maxCallDepth fuel (.start config sink) =
      program.run fuel (.start config sink) ∧
    (∀ alarm alarm',
      program.runNesting alarm (fun _ => true) (.direct alarm' (.idle Machine.hasGrown))
          (2 * config.maxCallDepth + 2) fuel (.start config sink) =
        program.runWatched (.direct alarm' (.idle Machine.hasGrown)) fuel (.start config sink)) ∧
    parse callingEach.canonicalText = .ok callingEach ∧
    ∀ depth allowed, ∃ enough, ∀ alarm, ∃ m,
      callingEach.runNesting alarm (fun _ => true) (.idle Machine.hasGrown) allowed enough
        (.start { maxCallDepth := depth } .unlimited) = .error alarm m := by
  have hat : At 0 config (.start config sink) := ⟨rfl, rfl⟩
  refine ⟨?_, fun alarm alarm' => ?_, wellFormed_callingEach.parse_canonical,
    fun depth allowed => ⟨allowed + 9, fun alarm => ?_⟩⟩
  · have hk := Evaluator.givesBack_watched (Watch.givesBack_idle Machine.hasGrown) fuel
    have hagrees : Evaluator.Agrees 0 config _ _ :=
      Evaluator.agrees_nesting_functions Machine.hasGrown fuel config.maxCallDepth 0
        (Nat.zero_add _)
    have hsame := (hagrees.runScript hk program _ hat).symm
    rw [Evaluator.watched_idle] at hsame
    exact hsame
  · have hk := Evaluator.givesBack_watched (Watch.givesBack_direct alarm' Machine.hasGrown) fuel
    have hagrees : Evaluator.Agrees 0 config _ _ :=
      (Evaluator.agrees_nesting_all Machine.hasGrown alarm alarm' fuel).1
        (2 * config.maxCallDepth + 2) 0 (by omega)
    exact (hagrees.runScript hk program _ hat).symm
  · exact callingEach_nests alarm depth allowed (allowed + 9) (Nat.le_refl _)

end Tao
