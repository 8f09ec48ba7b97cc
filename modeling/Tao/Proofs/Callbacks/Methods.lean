/-
  Methods that call back are functions of lists.

  1. **Specification** (`ArrayMethod.OnList`) — the effectful functions of the list of elements:
     `each` is `forM`, `map` is `mapM`, `filter` and `where` are `filterM`, `find` is `findM?` and
     `reduce` is `foldlM`.  What becomes of failures is what the monad makes of them: the first one
     ends everything in the very machine in which it is met (`StoppedBy`).

  2. **Assumption** (`CallsLeave`) — the calls that are made leave the elements of the array as they
     are.  Nothing is assumed of the array being there: it is, as the receiver of a call that is
     under way.

  3. **Reduction** (`SameSteps`) — method and function of the list walk through the elements with
     the same steps.
-/
import Mathlib
import Tao.Proofs.Callbacks.Walks

namespace Tao

open Eval (Balanced Stays)

/-! ## Functions of lists -/

section Turns

variable (call : List Value → Eval Value) (array : ArrayId)

/-- Calls with an element, its index and the array, and keeps element and result alive. -/
def visitTurn (item : Value × Nat) : Eval Value := do
  let result ← call [item.1, .number (Int64.ofNat item.2), .array array]
  Eval.keep item.1
  Eval.keep result
  return result

/-- The same, and looks whether the result is true. -/
def selectTurn (item : Value × Nat) : Eval Bool := do
  Eval.truthy (← visitTurn call array item)

/-- Calls with what was folded so far, an element, its index and the array, and keeps the result
    alive. -/
def foldTurn (memo : Value) (item : Value × Nat) : Eval Value := do
  let memo ← call [memo, item.1, .number (Int64.ofNat item.2), .array array]
  Eval.keep memo
  return memo

end Turns

/-- Makes an array of these elements. -/
def arrayOf (elements : List Value) : Eval Value :=
  return .array (← Eval.make (·.addArray (.ofElements elements.toArray)))

/-- The new array of the elements whose call gives something true. -/
def selection (array : ArrayId) (elements : List Value) (call : List Value → Eval Value) :
    Eval Value := do
  arrayOf ((← elements.zipIdx.filterM (selectTurn call array)).map Prod.fst)

/-- What a method that calls back does with the elements of its array.  `start` is what `reduce`
    begins with. -/
inductive ArrayMethod.OnList (array : ArrayId) (elements : List Value) (start : Value) :
    ArrayMethod → ((List Value → Eval Value) → Eval Value) → Prop where
  | each : OnList array elements start .each fun call => do
    elements.zipIdx.forM fun item => do
      let _ ← visitTurn call array item
    return .nil
  | map : OnList array elements start .map fun call => do
    arrayOf (← elements.zipIdx.mapM (visitTurn call array))
  | filter : OnList array elements start .filter (selection array elements)
  | filterWhere : OnList array elements start .filterWhere (selection array elements)
  | find : OnList array elements start .find fun call => do
    return ((← elements.zipIdx.findM? (selectTurn call array)).map Prod.fst).getD .nil
  | reduce : OnList array elements start .reduce fun call =>
    elements.zipIdx.foldlM (foldTurn call array) start

/-! ## What is said of the calls -/

/-- What a method can be given to call: a function of a script or a built-in one. -/
inductive Value.IsFunction : Value → Prop where
  | function (closure : Closure) : IsFunction (.function closure)
  | builtin (builtin : Builtin) : IsFunction (.builtin builtin)

/-- None of the calls that are made on the way changes the elements of the array: an alarm after any
    that does would make no difference. -/
def CallsLeave (array : ArrayId) (elements : Array Value)
    (f : (List Value → Eval Value) → Eval Value) (call : List Value → Eval Value)
    (m : Machine) : Prop :=
  ∀ alarm, f (fun arguments =>
    Eval.testedAfter (·.HasElements array elements) alarm (call arguments)) m = f call m

/-- The last thing done was a call that halted, or one that gave something of which it cannot be
    told whether it is true. -/
inductive StoppedBy (call : List Value → Eval Value) : Halt RuntimeError → Machine → Prop where
  | call {arguments : List Value} {before last : Machine} {halt : Halt RuntimeError}
    (halted : call arguments before = .error halt last) : StoppedBy call halt last
  | truthy {arguments : List Value} {before after : Machine} {result : Value} {e : RuntimeError}
    (called : call arguments before = .ok result after)
    (unread : after.heap.truthy result = .error e) (held : List Value) :
    StoppedBy call (.failed e) { after with held }

variable {α β : Type} {array : ArrayId} {elements : Array Value} {m : Machine} {n : Nat}
  {arguments : β → Value × Nat → List Value}
  {decide : β → Value × Nat → Value → Eval (Turn β β)} {found : β}

namespace Evaluator

/-! ## Methods as walks -/

/-- The arguments of a call for an element. -/
def visiting (array : ArrayId) (_ : β) (item : Value × Nat) : List Value :=
  [item.1, .number (Int64.ofNat item.2), .array array]

/-- The arguments of a call that folds an element in. -/
def folding (array : ArrayId) (memo : Value) (item : Value × Nat) : List Value :=
  [memo, item.1, .number (Int64.ofNat item.2), .array array]

/-- Keeps element and result alive and then decides. -/
def keeping (visit : β → Value → Value → Eval (Turn β β)) (found : β) (item : Value × Nat)
    (result : Value) : Eval (Turn β β) := do
  Eval.keep item.1
  Eval.keep result
  visit found item.1 result

/-- Keeps the result alive and goes on with it. -/
def remembering (_ : Value) (_ : Value × Nat) (result : Value) : Eval (Turn Value Value) := do
  Eval.keep result
  return .again result

/-- The loop of all methods but `reduce`, as one of turns that call and then decide. -/
theorem overElements_eq (k : Evaluator) (array : ArrayId) (f : Value)
    (visit : β → Value → Value → Eval (Turn β β)) (start : β) :
    k.overElements array f visit start = iterate k.bound
      (placeTurn array (callingStep (k.call f) (visiting array) (keeping visit))) (0, start) := by
  unfold overElements
  congr 1
  funext ⟨place, found⟩
  apply congrArg (Eval.read (elementNow array place) >>= ·)
  funext now
  cases now with
  | none => rfl
  | some element =>
    unfold callingStep keeping visiting
    dsimp only
    rw [bind_assoc]
    rfl

/-- The loop of `reduce`, in the same form. -/
theorem foldElements_eq (k : Evaluator) (array : ArrayId) (f start : Value) :
    k.foldElements array f start = iterate k.bound
      (placeTurn array (callingStep (k.call f) (folding array) remembering)) (0, start) := by
  unfold foldElements
  congr 1
  funext ⟨place, memo⟩
  apply congrArg (Eval.read (elementNow array place) >>= ·)
  funext now
  cases now with
  | none => rfl
  | some element =>
    unfold callingStep remembering folding
    dsimp only
    rw [bind_assoc]
    rfl

/-- Keeping values alive leaves the array ready, if deciding does. -/
theorem stays_ready_keeping {visit : β → Value → Value → Eval (Turn β β)}
    (hvisit : ∀ found element result, Stays (·.Ready array elements) (visit found element result))
    (found : β) (item : Value × Nat) (result : Value) :
    Stays (·.Ready array elements) (keeping visit found item result) := by
  intro m h
  have hkept : m.held <:+ result :: item.1 :: m.held :=
    (List.suffix_cons _ _).trans (List.suffix_cons _ _)
  exact hvisit found item.1 result { m with held := result :: item.1 :: m.held }
    (h.of_heap rfl hkept)

/-- Keeping the result alive leaves the array ready. -/
theorem stays_ready_remembering (memo : Value) (item : Value × Nat) (result : Value) :
    Stays (·.Ready array elements) (remembering memo item result) := by
  intro m h
  exact h.of_heap rfl (List.suffix_cons _ _)

/-- Looking whether a value is true changes nothing. -/
theorem reached_truthy (value : Value) (m : Machine) : (Eval.truthy value).reached m = m := by
  unfold Eval.truthy Eval.read Eval.reached
  dsimp only
  cases m.heap.truthy value <;> rfl

/-- So does asking whether it is true. -/
theorem stays_ready_whether (result : Value) (a b : α) :
    Stays (·.Ready array elements)
      (do if ← Eval.truthy result then return a else return b) := by
  intro m h
  have hsame := reached_truthy result m
  rw [Eval.reached_bind]
  cases hread : Eval.truthy result m with
  | error e later =>
    rw [Eval.reached_of_error hread] at hsame
    exact hsame.symm ▸ h
  | ok passed later =>
    rw [Eval.reached_of_ok hread] at hsame
    cases passed <;> exact hsame.symm ▸ h

/-- A new array is another one. -/
theorem stays_ready_arrayOf (values : List Value) :
    Stays (·.Ready array elements) (arrayOf values) := by
  intro m h
  obtain ⟨cell, hcell, helements⟩ := h.there
  have hnew : m.heap.arrays.get? (m.heap.addArray (.ofElements values.toArray)).2 = none :=
    Arena.get?_new h.wellFormed.arrays _
  constructor
  · exact h.wellFormed.addArray _
  · exact h.held
  · refine ⟨cell, ?_, helements⟩
    show (m.heap.addArray (.ofElements values.toArray)).1.arrays.get? array = some cell
    rw [Heap.get?_addArray h.wellFormed, if_neg, hcell]
    rintro rfl
    cases hnew.symm.trans hcell

/-- A call with the arguments of a visit, and what a step makes of the result. -/
theorem callingStep_visiting (call : List Value → Eval Value)
    (visit : β → Value → Value → Eval (Turn β β)) :
    callingStep call (visiting array) (keeping visit) =
      fun found item => visitTurn call array item >>= visit found item.1 := by
  funext found item
  unfold callingStep visiting keeping visitTurn
  simp only [bind_assoc, pure_bind]

/-- A visit that looks whether the result is true. -/
theorem callingStep_selecting (array : ArrayId) (call : List Value → Eval Value)
    (a b : β → Value → Turn β β) :
    callingStep call (visiting array) (keeping fun found element result => do
      if ← Eval.truthy result then return a found element else return b found element) =
      fun found item => do
        if ← selectTurn call array item then return a found item.1 else return b found item.1 := by
  rw [callingStep_visiting]
  funext found item
  unfold selectTurn
  rw [bind_assoc]

/-- If this halts, then because of this value it cannot be told whether it is true, and all that
    happened to the machine is that values are held. -/
def OnlyUnread (result : Value) (x : Eval α) : Prop := ∀ after halt last,
  x after = .error halt last → ∃ e held, halt = .failed e ∧ after.heap.truthy result = .error e ∧
    last = { after with held }

/-- What never halts does not halt for another reason. -/
theorem onlyUnread_of_ok {result : Value} {x : Eval α} (h : ∀ m, ∃ a last, x m = .ok a last) :
    OnlyUnread result x := by
  intro after halt last hhalted
  obtain ⟨a, last', hok⟩ := h after
  cases hok.symm.trans hhalted

/-- A decision by the truth of a value halts only if this truth cannot be told. -/
theorem onlyUnread_whether (result : Value) (a b : α) :
    OnlyUnread result (do if ← Eval.truthy result then return a else return b) := by
  intro after halt last hhalted
  unfold Eval.truthy at hhalted
  rw [EStateM.bind_apply] at hhalted
  unfold Eval.read at hhalted
  dsimp only at hhalted
  cases htruthy : after.heap.truthy result with
  | error e =>
    rw [htruthy] at hhalted
    cases hhalted
    exact ⟨e, after.held, rfl, rfl, rfl⟩
  | ok passed =>
    rw [htruthy] at hhalted
    cases passed <;> cases hhalted

/-- Keeping values alive halts for no reason of its own. -/
theorem onlyUnread_keeping {visit : β → Value → Value → Eval (Turn β β)}
    (hvisit : ∀ found element result, OnlyUnread result (visit found element result))
    (found : β) (item : Value × Nat) (result : Value) :
    OnlyUnread result (keeping visit found item result) := by
  intro after halt last hhalted
  obtain ⟨e, held, rfl, hunread, rfl⟩ := hvisit found item.1 result
    { after with held := result :: item.1 :: after.held } halt last hhalted
  exact ⟨e, held, rfl, hunread, rfl⟩

/-- A method and a function of the list take the same steps and end in the same way. -/
structure SameSteps (method : ArrayMethod) (array : ArrayId) (elements : List Value)
    (start : Value) (spec : (List Value → Eval Value) → Eval Value) {β : Type}
    (arguments : β → Value × Nat → List Value)
    (decide : β → Value × Nat → Value → Eval (Turn β β)) (first : β) (finish : β → Eval Value) :
    Prop where
  list : ∀ call, spec call =
    walk (callingStep call arguments decide) elements.zipIdx first >>= finish
  loop : ∀ (k : Evaluator) {f : Value} (more : List Value), f.IsFunction →
    (more[0]?).getD .nil = start →
    k.callArrayMethod method array (f :: more) =
      iterate k.bound (placeTurn array (callingStep (k.call f) arguments decide)) (0, first) >>=
        finish
  stays : ∀ (expected : Array Value) found item result,
    Stays (·.Ready array expected) (decide found item result)
  finishes : ∀ (expected : Array Value) found, Stays (·.Ready array expected) (finish found)
  unread : ∀ found item result, OnlyUnread result (decide found item result)
  ends : ∀ found m, ∃ value last, finish found m = .ok value last

/-- `each` calls for every element, and `forM` does. -/
theorem sameSteps_each (array : ArrayId) (elements : List Value) (start : Value) :
    SameSteps .each array elements start (fun call => do
        elements.zipIdx.forM fun item => do
          let _ ← visitTurn call array item
        return .nil)
      (visiting array) (keeping fun _ _ _ => return .again ()) () fun _ => return .nil where
  list call := by
    rw [callingStep_visiting, forM_eq_walk]
  loop k f more hf _ := by
    rw [← overElements_eq]
    cases hf <;> rfl
  stays expected := stays_ready_keeping fun _ _ _ _ h => h
  finishes expected _ _ h := h
  unread := onlyUnread_keeping fun _ _ _ => onlyUnread_of_ok fun m => ⟨_, m, rfl⟩
  ends _ m := ⟨_, m, rfl⟩

/-- `map` collects the results of the calls, and `mapM` does. -/
theorem sameSteps_map (array : ArrayId) (elements : List Value) (start : Value) :
    SameSteps .map array elements start (fun call => do
        arrayOf (← elements.zipIdx.mapM (visitTurn call array)))
      (visiting array) (keeping fun found _ result => return .again (result :: found)) []
      arrayOfReversed where
  list call := by
    rw [callingStep_visiting, mapM_eq_walk, bind_assoc]
    apply congrArg
    funext results
    rw [pure_bind, List.append_nil]
    unfold arrayOfReversed
    rw [List.reverse_reverse]
    rfl
  loop k f more hf _ := by
    rw [← overElements_eq]
    cases hf <;> rfl
  stays expected := stays_ready_keeping fun _ _ _ _ h => h
  finishes expected found := stays_ready_arrayOf found.reverse
  unread := onlyUnread_keeping fun _ _ _ => onlyUnread_of_ok fun m => ⟨_, m, rfl⟩
  ends _ _ := ⟨_, _, rfl⟩

/-- `filter` and `where` collect the elements whose call gives something true, and `filterM`
    does. -/
theorem sameSteps_select {method : ArrayMethod}
    (hmethod : method = .filter ∨ method = .filterWhere) (array : ArrayId) (elements : List Value)
    (start : Value) :
    SameSteps method array elements start (selection array elements) (visiting array)
      (keeping fun found element result => do
        if ← Eval.truthy result then return .again (element :: found) else return .again found)
      [] arrayOfReversed where
  list call := by
    have hsteps := filterM_eq_walk (selectTurn call array) Prod.fst elements.zipIdx []
    rw [List.map_nil] at hsteps
    have hselecting := callingStep_selecting array call
      (fun found element => .again (element :: found)) fun found _ => .again found
    rw [hselecting]
    unfold selection List.filterM
    rw [hsteps, bind_assoc, bind_assoc]
    apply congrArg
    funext found
    rw [pure_bind, pure_bind, List.map_reverse]
    rfl
  loop k f more hf _ := by
    rw [← overElements_eq]
    rcases hmethod with rfl | rfl <;> cases hf <;> rfl
  stays expected := stays_ready_keeping fun found element result =>
    stays_ready_whether result (Turn.again (element :: found)) (Turn.again found)
  finishes expected found := stays_ready_arrayOf found.reverse
  unread := onlyUnread_keeping fun found element result =>
    onlyUnread_whether result (Turn.again (element :: found)) (Turn.again found)
  ends _ _ := ⟨_, _, rfl⟩

/-- `find` stops at the first element whose call gives something true, and `findM?` does. -/
theorem sameSteps_find (array : ArrayId) (elements : List Value) (start : Value) :
    SameSteps .find array elements start (fun call => do
        return ((← elements.zipIdx.findM? (selectTurn call array)).map Prod.fst).getD .nil)
      (visiting array) (keeping fun found element result => do
        if ← Eval.truthy result then return .done element else return .again found)
      .nil fun found => return found where
  list call := by
    have hselecting := callingStep_selecting array call
      (fun _ element => .done element) fun found _ => .again found
    rw [hselecting, findM?_eq_walk, bind_pure]
  loop k f more hf _ := by
    rw [← overElements_eq, bind_pure]
    cases hf <;> rfl
  stays expected := stays_ready_keeping fun found element result =>
    stays_ready_whether result (Turn.done element) (Turn.again found)
  finishes expected _ _ h := h
  unread := onlyUnread_keeping fun found element result =>
    onlyUnread_whether result (Turn.done element) (Turn.again found)
  ends _ m := ⟨_, m, rfl⟩

/-- `reduce` hands on what the calls give, and `foldlM` does. -/
theorem sameSteps_reduce (array : ArrayId) (elements : List Value) (start : Value) :
    SameSteps .reduce array elements start (fun call =>
        elements.zipIdx.foldlM (foldTurn call array) start)
      (folding array) remembering start fun memo => return memo where
  list call := by
    have hstep : (fun memo item => do return Turn.again (← foldTurn call array memo item)) =
        callingStep call (folding array) remembering := by
      funext memo item
      unfold foldTurn callingStep folding remembering
      simp only [bind_assoc, pure_bind]
    rw [← hstep, foldlM_eq_walk, bind_pure]
  loop k f more hf hstart := by
    rw [← foldElements_eq, bind_pure, ← hstart]
    cases hf <;> rfl
  stays expected := stays_ready_remembering
  finishes expected _ _ h := h
  unread _ _ _ := onlyUnread_of_ok fun _ => ⟨_, _, rfl⟩
  ends _ m := ⟨_, m, rfl⟩

/-- Every method with a function of lists takes the same steps as this function. -/
theorem exists_sameSteps {method : ArrayMethod} {values : List Value} {start : Value}
    {spec : (List Value → Eval Value) → Eval Value} (h : method.OnList array values start spec) :
    ∃ (β : Type) (arguments : β → Value × Nat → List Value)
      (decide : β → Value × Nat → Value → Eval (Turn β β)) (first : β) (finish : β → Eval Value),
      SameSteps method array values start spec arguments decide first finish := by
  cases h with
  | each => exact ⟨_, _, _, _, _, sameSteps_each array values start⟩
  | map => exact ⟨_, _, _, _, _, sameSteps_map array values start⟩
  | filter => exact ⟨_, _, _, _, _, sameSteps_select (.inl rfl) array values start⟩
  | filterWhere => exact ⟨_, _, _, _, _, sameSteps_select (.inr rfl) array values start⟩
  | find => exact ⟨_, _, _, _, _, sameSteps_find array values start⟩
  | reduce => exact ⟨_, _, _, _, _, sameSteps_reduce array values start⟩

/-! ## Methods that call back -/

/-- A walk halts where a step does. -/
theorem stoppedBy_of_walk {call : List Value → Eval Value}
    (hunread : ∀ found item result, OnlyUnread result (decide found item result))
    {items : List (Value × Nat)} {halt : Halt RuntimeError} {last : Machine}
    (h : walk (callingStep call arguments decide) items found m = .error halt last) :
    StoppedBy call halt last := by
  induction items generalizing found m with
  | nil => cases h
  | cons item rest ih =>
    unfold walk callingStep at h
    rw [EStateM.bind_apply, EStateM.bind_apply] at h
    cases hcall : call (arguments found item) m with
    | error halt' later =>
      rw [hcall] at h
      cases h
      exact .call hcall
    | ok result later =>
      rw [hcall] at h
      dsimp only at h
      cases hdecide : decide found item result later with
      | error halt' later' =>
        rw [hdecide] at h
        cases h
        obtain ⟨e, held, rfl, htruthy, rfl⟩ := hunread found item result later halt last hdecide
        exact .truthy hcall htruthy held
      | ok decision later' =>
        rw [hdecide] at h
        cases decision with
        | done found => cases h
        | again found => exact ih h

variable {method : ArrayMethod} {start f : Value} {more : List Value}
  {spec : (List Value → Eval Value) → Eval Value}

/-- The method of an array that is ready does what the function of the list of its elements does,
    and the array is ready in the end. -/
theorem callArrayMethod_onList (hspec : method.OnList array elements.toList start spec)
    (hf : f.IsFunction) (hstart : (more[0]?).getD .nil = start) (h : m.Ready array elements)
    (hbound : elements.size < n)
    (hleave : CallsLeave array elements spec ((ofFuel n).call f) m) :
    (ofFuel n).callArrayMethod method array (f :: more) m =
        spec ((ofFuel n).call f) m ∧
      ((spec ((ofFuel n).call f)).reached m).Ready array elements ∧
      ∀ halt last, spec ((ofFuel n).call f) m = .error halt last →
        StoppedBy ((ofFuel n).call f) halt last := by
  obtain ⟨β, arguments, decide, first, finish, hsteps⟩ := exists_sameSteps hspec
  -- that the calls leave the elements alone is said of the walk, with a test after each call
  have hsame : ∀ alarm,
      (walk (testedStep ((ofFuel n).call f) arguments decide array elements
          alarm) (elements.toList.zipIdx 0) first >>= finish) m =
        (walk (callingStep ((ofFuel n).call f) arguments decide)
          (elements.toList.zipIdx 0) first >>= finish) m := by
    intro alarm
    have hleave := hleave alarm
    rw [hsteps.list, hsteps.list] at hleave
    exact hleave
  obtain ⟨hloop, hready⟩ := iterate_placeTurn elements.toList 0 (ofFuel n).bound h List.drop_zero
    (by rw [Array.length_toList]; exact hbound) (hsteps.stays elements) finish hsame
  rw [hsteps.loop _ more hf hstart, hsteps.list, Eval.reached_bind, EStateM.bind_apply,
    EStateM.bind_apply]
  refine ⟨?_, ?_, ?_⟩
  · rw [hloop]
  · cases hwalk : walk (callingStep ((ofFuel n).call f) arguments decide)
        (elements.toList.zipIdx 0) first m with
    | error halt last =>
      rw [Eval.reached_of_error hwalk] at hready
      exact hready
    | ok found last =>
      rw [Eval.reached_of_ok hwalk] at hready
      exact hsteps.finishes elements found last hready
  · intro halt last hhalted
    cases hwalk : walk (callingStep ((ofFuel n).call f) arguments decide)
        (elements.toList.zipIdx 0) first m with
    | error halt' last' =>
      rw [hwalk] at hhalted
      cases hhalted
      exact stoppedBy_of_walk hsteps.unread hwalk
    | ok found last' =>
      rw [hwalk] at hhalted
      obtain ⟨value, final, hok⟩ := hsteps.ends found last'
      cases hok.symm.trans hhalted

/-- The value of an expression is held. -/
theorem mem_held_of_evaluate {e : Expression} {value : Value} {later : Machine}
    (h : (ofFuel n).evaluate e m = .ok value later) : value ∈ later.held := by
  cases n with
  | zero => cases h
  | succ n =>
    rw [evaluate_succ] at h
    unfold Eval.kept at h
    obtain ⟨result, last, -, h⟩ := EStateM.exists_of_bind_ok h
    cases h
    exact List.mem_cons_self

/-- A call is an expression that holds its value in the end, like any other. -/
theorem evaluate_call {callee : Expression} {args : List Expression} {function : Value}
    {values : List Value} {m₁ m₂ : Machine}
    (hcallee : (ofFuel (n + 1)).evaluate callee m = .ok function m₁)
    (hargs : args.mapM (ofFuel (n + 1)).evaluate m₁ = .ok values m₂) :
    (ofFuel (n + 2)).evaluate (.call callee args) m =
      Eval.kept ((ofFuel n).callAny function values) m₂ := by
  have hexpress : (ofFuel (n + 1)).express (.call callee args) m =
      (ofFuel n).callAny function values m₂ := by
    show ((ofFuel (n + 1)).evaluate callee >>= fun callee =>
      args.mapM (ofFuel (n + 1)).evaluate >>= fun arguments =>
        (ofFuel (n + 1)).call callee arguments) m = _
    rw [EStateM.bind_of_ok hcallee, EStateM.bind_of_ok hargs]
    exact congrFun (call_succ n function values) m₂
  rw [evaluate_succ]
  unfold Eval.kept
  rw [EStateM.bind_apply, EStateM.bind_apply, hexpress]

/-- The receiver of a method is held from the moment at which the method is known. -/
theorem ready_of_receiver {callee : Expression} {args : List Expression} {stamp : Nat}
    {values : List Value} {m₁ m₂ : Machine} {cell : ArrayCell} (hwf : m.heap.WellFormed)
    (hcallee : (ofFuel n).evaluate callee m =
      .ok (.builtin (.arrayMethod stamp method array)) m₁)
    (hargs : args.mapM (ofFuel n).evaluate m₁ = .ok values m₂)
    (hcell : m₂.heap.arrays.get? array = some cell) : m₂.Ready array cell.elements := by
  have hwf₁ : m₁.heap.WellFormed := by
    have hspares := spares_evaluate hwf n callee
    rw [Eval.reached_of_ok hcallee] at hspares
    exact hspares.wellFormed
  have hspares := spares_evaluateAll hwf₁ n args
  have hbalanced : Balanced false m₁ (args.mapM (ofFuel n).evaluate) :=
    (givesBack_ofFuel n).evaluateAll args
  have hback := hbalanced m₁ .refl
  rw [Eval.reached_of_ok hargs] at hspares hback
  constructor
  · exact hspares.wellFormed
  · exact ⟨_, hback.held.subset (mem_held_of_evaluate hcallee), .receiver stamp method array⟩
  · exact ⟨cell, hcell, rfl⟩

/-- A method that calls back, called by an expression with a function to call: with levels
    enough for the elements that the array has when the method begins, and if the calls leave these
    as they are, the expression does what the function of the list does.  The array has these
    elements in the end, however the calls end.  If one of them halts, or gives something of which
    it cannot be told whether it is true, then nothing is done afterwards. -/
theorem evaluate_method_onList {callee : Expression} {args : List Expression} {stamp : Nat}
    {m₁ m₂ : Machine} {cell : ArrayCell} (hwf : m.heap.WellFormed)
    (hcallee : (ofFuel (n + 1)).evaluate callee m =
      .ok (.builtin (.arrayMethod stamp method array)) m₁)
    (hargs : args.mapM (ofFuel (n + 1)).evaluate m₁ = .ok (f :: more) m₂) (hf : f.IsFunction)
    (hcell : m₂.heap.arrays.get? array = some cell) (hbound : cell.elements.size < n)
    (hspec : method.OnList array cell.elements.toList ((more[0]?).getD .nil) spec)
    (hleave : CallsLeave array cell.elements spec ((ofFuel n).call f) m₂) :
    (ofFuel (n + 2)).evaluate (.call callee args) m =
        Eval.kept (spec ((ofFuel n).call f)) m₂ ∧
      (∃ later, (((ofFuel (n + 2)).evaluate (.call callee args)).reached m).heap.arrays.get? array
        = some later ∧ later.elements = cell.elements) ∧
      ∀ halt last, (ofFuel (n + 2)).evaluate (.call callee args) m = .error halt last →
        StoppedBy ((ofFuel n).call f) halt last := by
  have hready := ready_of_receiver hwf hcallee hargs hcell
  obtain ⟨hsame, hafter, hstopped⟩ := callArrayMethod_onList hspec hf rfl hready hbound hleave
  have hevaluate : (ofFuel (n + 2)).evaluate (.call callee args) m =
      Eval.kept (spec ((ofFuel n).call f)) m₂ := by
    rw [evaluate_call hcallee hargs]
    unfold Eval.kept
    rw [EStateM.bind_apply, EStateM.bind_apply, ← hsame]
    rfl
  refine ⟨hevaluate, ?_⟩
  unfold Eval.kept at hevaluate
  rw [EStateM.bind_apply] at hevaluate
  cases hresult : spec ((ofFuel n).call f) m₂ with
  | error halt last =>
    rw [hresult] at hevaluate
    rw [Eval.reached_of_error hresult] at hafter
    rw [Eval.reached_of_error hevaluate, hevaluate]
    refine ⟨hafter.there, ?_⟩
    intro halt' last' hhalted
    cases hhalted
    exact hstopped halt last hresult
  | ok value last =>
    rw [hresult] at hevaluate
    have hvalue : (ofFuel (n + 2)).evaluate (.call callee args) m =
        .ok value { last with held := value :: last.held } := hevaluate
    rw [Eval.reached_of_ok hresult] at hafter
    rw [Eval.reached_of_ok hvalue, hvalue]
    refine ⟨hafter.there, ?_⟩
    intro halt' last' hhalted
    cases hhalted

/-- `[5, 7].map(function (x, i) { let sum = x + i; return sum; })` -/
def addingIndices : Expression × List Expression :=
  (.index (.array [.literal (.number 5), .literal (.number 7)]) (.literal (.string "map")),
    [.function ⟨none, ["x", "i"],
      [.define "sum" (some (.binary .plus (.name "x") (.name "i"))),
        .giveBack (some (.name "sum"))]⟩])

/-- The function in there, made in the outermost scope. -/
def addingClosure : Closure :=
  ⟨1, ⟨none, ["x", "i"],
    [.define "sum" (some (.binary .plus (.name "x") (.name "i"))),
      .giveBack (some (.name "sum"))]⟩, ⟨0, 0⟩⟩

/-- A visit whose call succeeds keeps the element and the result. -/
theorem visitTurn_apply {call : List Value → Eval Value} {item : Value × Nat} {result : Value}
    {later : Machine}
    (h : call [item.1, .number (Int64.ofNat item.2), .array array] m = .ok result later) :
    visitTurn call array item m =
      .ok result { later with held := result :: item.1 :: later.held } := by
  unfold visitTurn
  rw [EStateM.bind_of_ok h]
  rfl

/-- `map` for two elements, by its two calls. -/
theorem mapM_visitTurn_two (call : List Value → Eval Value) (array : ArrayId)
    (first second : Value × Nat) {a b : Value} {later last : Machine}
    (hfirst : call [first.1, .number (Int64.ofNat first.2), .array array] m = .ok a later)
    (hsecond : call [second.1, .number (Int64.ofNat second.2), .array array]
      { later with held := a :: first.1 :: later.held } = .ok b last) :
    (do arrayOf (← [first, second].mapM (visitTurn call array))) m =
      arrayOf [a, b] { last with held := b :: second.1 :: last.held } := by
  rw [List.mapM_cons, List.mapM_cons, List.mapM_nil, bind_assoc, EStateM.bind_apply,
    visitTurn_apply hfirst]
  dsimp only
  rw [bind_assoc, bind_assoc, EStateM.bind_apply, visitTurn_apply hsecond]
  rfl

/-- The machines that the evaluation of this call goes through: in the beginning, once the method is
    known, once the function is, and after each of the two calls. -/
def addingStage : Nat → Machine
  | 0 => .start { gcThreshold := 0 } .unlimited
  | stage + 1 =>
    let m := addingStage stage
    match stage with
    | 0 => ((ofFuel 7).evaluate addingIndices.1).reached m
    | 1 => (addingIndices.2.mapM (ofFuel 7).evaluate).reached m
    | 2 => ((ofFuel 6).call (.function addingClosure)
        [.number 5, .number (Int64.ofNat 0), .array ⟨0, 0⟩]).reached m
    | _ => ((ofFuel 6).call (.function addingClosure)
        [.number 7, .number (Int64.ofNat 1), .array ⟨0, 0⟩]).reached
          { m with held := .number 5 :: .number 5 :: m.held }

/-- The first of the two calls, which leaves the array as it is. -/
theorem adding_first :
    (ofFuel 6).call (.function addingClosure) [.number 5, .number (Int64.ofNat 0), .array ⟨0, 0⟩]
        (addingStage 2) = .ok (.number 5) (addingStage 3) ∧
      (addingStage 3).HasElements ⟨0, 0⟩ #[.number 5, .number 7] := by
  have hafter : (addingStage 3).heap.arrays.get? ⟨0, 0⟩ =
      some ⟨#[.number 5, .number 7], []⟩ := by cbv
  refine ⟨Eval.apply_of_outcome_ok (by cbv), ?_⟩
  intro cell hget
  cases hafter.symm.trans hget
  rfl

/-- The second one, which does so, too. -/
theorem adding_second :
    (ofFuel 6).call (.function addingClosure) [.number 7, .number (Int64.ofNat 1), .array ⟨0, 0⟩]
        { addingStage 3 with held := .number 5 :: .number 5 :: (addingStage 3).held } =
          .ok (.number 8) (addingStage 4) ∧
      (addingStage 4).HasElements ⟨0, 0⟩ #[.number 5, .number 7] := by
  have hafter : (addingStage 4).heap.arrays.get? ⟨0, 0⟩ =
      some ⟨#[.number 5, .number 7], []⟩ := by cbv
  refine ⟨Eval.apply_of_outcome_ok (by cbv), ?_⟩
  intro cell hget
  cases hafter.symm.trans hget
  rfl

/-- Both calls leave the array as it is, so no alarm is raised. -/
theorem callsLeave_adding :
    CallsLeave ⟨0, 0⟩ #[.number 5, .number 7]
      (fun call => do
        arrayOf (← #[.number 5, .number 7].toList.zipIdx.mapM (visitTurn call ⟨0, 0⟩)))
      ((ofFuel 6).call (.function addingClosure)) (addingStage 2) := by
  obtain ⟨hfirst, hkept⟩ := adding_first
  obtain ⟨hsecond, hkept'⟩ := adding_second
  intro alarm
  let tested (arguments : List Value) : Eval Value :=
    Eval.testedAfter (·.HasElements ⟨0, 0⟩ #[.number 5, .number 7]) alarm
      ((ofFuel 6).call (.function addingClosure) arguments)
  have hfirst' : tested [.number 5, .number (Int64.ofNat 0), .array ⟨0, 0⟩] (addingStage 2) =
      .ok (.number 5) (addingStage 3) := (if_pos hkept).trans hfirst
  have hsecond' : tested [.number 7, .number (Int64.ofNat 1), .array ⟨0, 0⟩]
      { addingStage 3 with held := .number 5 :: .number 5 :: (addingStage 3).held } =
        .ok (.number 8) (addingStage 4) := (if_pos hkept').trans hsecond
  have hplain := mapM_visitTurn_two _ ⟨0, 0⟩ (.number 5, 0) (.number 7, 1) hfirst hsecond
  exact (mapM_visitTurn_two tested ⟨0, 0⟩ (.number 5, 0) (.number 7, 1) hfirst' hsecond').trans
    hplain.symm

/-- Garbage is collected within the first call, while nothing but the call that is under way holds
    the array. -/
theorem evaluate_method_onList_adding :
    ∃ last, (ofFuel 8).evaluate (.call addingIndices.1 addingIndices.2) (addingStage 0) =
        .ok (.array ⟨1, 0⟩) last ∧
      (last.heap.arrays.get? ⟨1, 0⟩).map ArrayCell.elements = some #[.number 5, .number 8] ∧
      (last.heap.arrays.get? ⟨0, 0⟩).map ArrayCell.elements = some #[.number 5, .number 7] := by
  have hwf : (addingStage 0).heap.WellFormed := (Heap.wellFormed_empty.addObject _).addScope _
  have hcallee : (ofFuel 7).evaluate addingIndices.1 (addingStage 0) =
      .ok (.builtin (.arrayMethod 0 .map ⟨0, 0⟩)) (addingStage 1) :=
    Eval.apply_of_outcome_ok (by cbv)
  have hargs : addingIndices.2.mapM (ofFuel 7).evaluate (addingStage 1) =
      .ok [.function addingClosure] (addingStage 2) := Eval.apply_of_outcome_ok (by cbv)
  have hcell : (addingStage 2).heap.arrays.get? ⟨0, 0⟩ = some ⟨#[.number 5, .number 7], []⟩ := by
    cbv
  obtain ⟨hsame, ⟨later, hlater, helements⟩, -⟩ :=
    evaluate_method_onList hwf hcallee hargs (.function addingClosure) hcell (by decide) .map
      callsLeave_adding
  simp only [Nat.reduceAdd] at hsame hlater
  have hresult : (ofFuel 8).evaluate (.call addingIndices.1 addingIndices.2) (addingStage 0) =
      .ok (.array ⟨1, 0⟩) _ := hsame.trans (Eval.apply_of_outcome_ok (by cbv))
  rw [Eval.reached_of_ok hresult] at hlater
  refine ⟨_, hresult, by cbv, ?_⟩
  rw [hlater]
  exact congrArg some helements

end Evaluator

end Tao
