/-
  Loops over the elements of an array.

  1. **Walks** — the effectful functions of a list, `forM`, `mapM`, `filterM`, `findM?` and
     `foldlM`, all go through it with a step that may end the walk (`walk`).

  2. **Loops** — a loop over an array looks its element up anew in every turn (`placeTurn`).

  3. **The crux** — a turn finds the element that stands next in the list because the array is still
     there and has the same elements.  It is there because it is held (`Machine.Spares`); that its
     elements are the same has to be assumed of the calls that are made, and of no others.  This is
     said with alarms: if an alarm after a call that changes the elements makes no difference,
     whatever halt serves as the alarm, then there is no such call (`testedAfter_bind`).
-/
import Tao.Proofs.Tandem.Held

namespace Tao

open Eval (Stays)

/-! ## Walks -/

/-- Goes through a list and lets each step decide whether to go on. -/
def walk {ι β : Type} (step : β → ι → Eval (Turn β β)) : List ι → β → Eval β
  | [], found => pure found
  | item :: rest, found => do
    match ← step found item with
    | .again found => walk step rest found
    | .done found => pure found

section Walks

variable {ι α β : Type}

/-- `forM` walks to the end and finds nothing. -/
theorem forM_eq_walk (f : ι → Eval α) (items : List ι) :
    (items.forM fun item => do let _ ← f item) =
      walk (fun _ item => do let _ ← f item; return .again ()) items () := by
  induction items with
  | nil => rfl
  | cons item rest ih =>
    show ((do let _ ← f item) >>= fun _ => rest.forM fun item => do let _ ← f item) = _
    rw [ih, walk, bind_assoc, bind_assoc]
    rfl

/-- `mapM` walks to the end and collects all results, last one first. -/
theorem mapM_eq_walk (f : ι → Eval α) (items : List ι) (found : List α) :
    walk (fun found item => do return .again ((← f item) :: found)) items found =
      do return (← items.mapM f).reverse ++ found := by
  induction items generalizing found with
  | nil => rfl
  | cons item rest ih =>
    rw [walk, List.mapM_cons, bind_assoc, bind_assoc]
    apply congrArg
    funext a
    rw [pure_bind, bind_assoc]
    apply (ih (a :: found)).trans
    apply congrArg
    funext as
    rw [pure_bind, List.reverse_cons, List.append_assoc]
    rfl

/-- `filterM` walks to the end and collects the items that pass, last one first.  What is collected
    of them may be something made of them. -/
theorem filterM_eq_walk (f : ι → Eval Bool) (g : ι → α) (items found : List ι) :
    walk (fun found item => do
      if ← f item then return .again (g item :: found) else return .again found) items
        (found.map g) =
      do return (← items.filterAuxM f found).map g := by
  induction items generalizing found with
  | nil => rfl
  | cons item rest ih =>
    rw [walk, List.filterAuxM, bind_assoc, bind_assoc]
    apply congrArg
    funext passed
    cases passed with
    | true => exact ih (item :: found)
    | false => exact ih found

/-- `findM?` ends its walk at the first item that passes. -/
theorem findM?_eq_walk (f : ι → Eval Bool) (g : ι → α) (items : List ι) (otherwise : α) :
    walk (fun found item => do
      if ← f item then return .done (g item) else return .again found) items otherwise =
      do return ((← items.findM? f).map g).getD otherwise := by
  induction items with
  | nil => rfl
  | cons item rest ih =>
    rw [walk, List.findM?, bind_assoc, bind_assoc]
    apply congrArg
    funext passed
    cases passed with
    | true => rfl
    | false => exact ih

/-- `foldlM` walks to the end and hands on what it has folded. -/
theorem foldlM_eq_walk (f : β → ι → Eval β) (items : List ι) (start : β) :
    walk (fun memo item => do return .again (← f memo item)) items start =
      items.foldlM f start := by
  induction items generalizing start with
  | nil => rfl
  | cons item rest ih =>
    rw [walk, List.foldlM_cons, bind_assoc]
    apply congrArg
    funext memo
    exact ih memo

end Walks

variable {α β γ : Type} {array : ArrayId} {elements : Array Value} {m : Machine} {n : Nat}
  {f : Value}

/-! ## Tests after calls -/

/-- As long as this array is there, these are its elements. -/
def Machine.HasElements (m : Machine) (array : ArrayId) (elements : Array Value) : Prop :=
  ∀ cell, m.heap.arrays.get? array = some cell → cell.elements = elements

open scoped Classical in
/-- Runs `x`, and raises the alarm unless the machine satisfies a test then, whether `x` fails or
    not. -/
noncomputable def Eval.testedAfter (test : Machine → Prop) (alarm : Halt RuntimeError)
    (x : Eval α) : Eval α := fun m =>
  if test (x.reached m) then x m else .error alarm (x.reached m)

/-- If no alarm makes a difference, the test is passed, and none makes one afterwards. -/
theorem testedAfter_bind {test : Machine → Prop} {x : Eval α}
    {g : Halt RuntimeError → α → Eval β} {h : α → Eval β}
    (hsame : ∀ alarm, (Eval.testedAfter test alarm x >>= g alarm) m = (x >>= h) m) :
    test (x.reached m) ∧ ∀ a later, x m = .ok a later → ∀ alarm, g alarm a later = h a later := by
  by_cases htest : test (x.reached m)
  · refine ⟨htest, ?_⟩
    intro a later hresult alarm
    have hgoes : Eval.testedAfter test alarm x m = .ok a later := by
      rw [← hresult]
      exact if_pos htest
    have hsame := hsame alarm
    rw [EStateM.bind_apply, EStateM.bind_apply, hgoes, hresult] at hsame
    exact hsame
  · -- the same run would end with two different alarms
    have halarm : ∀ alarm, (x >>= h) m = .error alarm (x.reached m) := by
      intro alarm
      have hraised : Eval.testedAfter test alarm x m = .error alarm (x.reached m) := if_neg htest
      rw [← hsame alarm, EStateM.bind_apply, hraised]
    have hboth := (halarm .outOfFuel).symm.trans (halarm (.failed .sinkFull))
    cases hboth

/-! ## What is known where a call is made -/

/-- The heap is well formed, and the array is held, is there and has these elements. -/
structure Machine.Ready (m : Machine) (array : ArrayId) (elements : Array Value) : Prop where
  wellFormed : m.heap.WellFormed
  held : ∃ value ∈ m.held, value.RefersTo (.array array)
  there : ∃ cell, m.heap.arrays.get? array = some cell ∧ cell.elements = elements

/-- Whatever leaves the heap alone and lets go of nothing leaves the array ready. -/
theorem Machine.Ready.of_heap {later : Machine} (h : m.Ready array elements)
    (hheap : later.heap = m.heap) (hheld : m.held <:+ later.held) :
    later.Ready array elements := by
  obtain ⟨value, hvalue, hrefers⟩ := h.held
  constructor
  · rw [hheap]
    exact h.wellFormed
  · exact ⟨value, hheld.subset hvalue, hrefers⟩
  · rw [hheap]
    exact h.there

/-- The array survives a call; if it has the same elements then, it is ready again. -/
theorem Machine.Ready.call {arguments : List Value} (h : m.Ready array elements)
    (hsame : (((Evaluator.ofFuel n).call f arguments).reached m).HasElements array elements) :
    (((Evaluator.ofFuel n).call f arguments).reached m).Ready array elements := by
  have hspares := Evaluator.spares_call h.wellFormed n f arguments
  have hback := (Evaluator.givesBack_ofFuel n).call false m f arguments nofun m .refl
  obtain ⟨value, hvalue, hrefers⟩ := h.held
  obtain ⟨cell, hcell, -⟩ := h.there
  obtain ⟨later, hlater⟩ := hspares.there value hvalue (.array array) hrefers ⟨cell, hcell⟩
  constructor
  · exact hspares.wellFormed
  · exact ⟨value, hback.held.subset hvalue, hrefers⟩
  · exact ⟨later, hlater, hsame later hlater⟩

/-! ## Loops that look the array up anew -/

section Steps

variable (call : List Value → Eval Value) (arguments : β → Value × Nat → List Value)
  (decide : β → Value × Nat → Value → Eval (Turn β β))

/-- A step that first calls and then decides. -/
def callingStep (found : β) (item : Value × Nat) : Eval (Turn β β) := do
  decide found item (← call (arguments found item))

/-- The step in which an alarm is raised if the call changed the elements of the array. -/
noncomputable def testedStep (array : ArrayId) (elements : Array Value)
    (alarm : Halt RuntimeError) : β → Value × Nat → Eval (Turn β β) :=
  callingStep (fun arguments => Eval.testedAfter (·.HasElements array elements) alarm
    (call arguments)) arguments decide

end Steps

variable {arguments : β → Value × Nat → List Value}
  {decide : β → Value × Nat → Value → Eval (Turn β β)} {found : β}

/-- A step from a machine on which the array is ready: it halts or decides, and the array is ready
    again.  If no alarm makes a difference, none does after the step. -/
theorem callingStep_cases (h : m.Ready array elements) (item : Value × Nat)
    (hdecide : ∀ found item result, Stays (·.Ready array elements) (decide found item result))
    {g : Halt RuntimeError → Turn β β → Eval γ} {g' : Turn β β → Eval γ}
    (hsame : ∀ alarm, (testedStep ((Evaluator.ofFuel n).call f) arguments decide array elements
        alarm found item >>= g alarm) m =
      (callingStep ((Evaluator.ofFuel n).call f) arguments decide found item >>= g') m) :
    (∃ halt later, callingStep ((Evaluator.ofFuel n).call f) arguments decide found item m =
        .error halt later ∧ later.Ready array elements) ∨
      ∃ decision later, callingStep ((Evaluator.ofFuel n).call f) arguments decide found item m =
        .ok decision later ∧ later.Ready array elements ∧
        ∀ alarm, g alarm decision later = g' decision later := by
  have hsame : ∀ alarm,
      (Eval.testedAfter (·.HasElements array elements) alarm
          ((Evaluator.ofFuel n).call f (arguments found item)) >>=
        fun result => decide found item result >>= g alarm) m =
      ((Evaluator.ofFuel n).call f (arguments found item) >>=
        fun result => decide found item result >>= g') m := by
    intro alarm
    have hsame := hsame alarm
    unfold testedStep callingStep at hsame
    rw [bind_assoc, bind_assoc] at hsame
    exact hsame
  -- no alarm makes a difference, so the call has left the elements as they were
  obtain ⟨hleft, hafter⟩ := testedAfter_bind hsame
  have hready := h.call hleft
  unfold callingStep
  rw [EStateM.bind_apply]
  cases hcall : (Evaluator.ofFuel n).call f (arguments found item) m with
  | error halt later =>
    rw [Eval.reached_of_error hcall] at hready
    exact .inl ⟨halt, later, rfl, hready⟩
  | ok result later =>
    rw [Eval.reached_of_ok hcall] at hready
    have hdecided := hdecide found item result later hready
    cases hresult : decide found item result later with
    | error halt last =>
      rw [Eval.reached_of_error hresult] at hdecided
      exact .inl ⟨halt, last, hresult, hdecided⟩
    | ok decision last =>
      rw [Eval.reached_of_ok hresult] at hdecided
      refine .inr ⟨decision, last, hresult, hdecided, ?_⟩
      intro alarm
      have hlater := hafter result later hcall alarm
      rw [EStateM.bind_apply, EStateM.bind_apply, hresult] at hlater
      exact hlater

namespace Evaluator

/-- One turn of a loop that looks up the element at a place, if there is one now. -/
def placeTurn (array : ArrayId) (step : β → Value × Nat → Eval (Turn β β)) :
    Nat × β → Eval (Turn (Nat × β) β) := fun (place, found) => do
  match ← Eval.read (elementNow array place) with
  | none => return .done found
  | some element =>
    match ← step found (element, place) with
    | .again found => return .again (place + 1, found)
    | .done found => return .done found

/-- What is read at a place of an array that is ready is the element of the list. -/
theorem read_elementNow (h : m.Ready array elements) (place : Nat) :
    Eval.read (elementNow array place) m = .ok elements[place]? m := by
  obtain ⟨cell, hcell, rfl⟩ := h.there
  unfold Eval.read elementNow Heap.array
  rw [hcell]
  rfl

/-- So a turn takes the step for the element that stands next in the list, or ends behind the last
    one. -/
theorem placeTurn_apply (h : m.Ready array elements) (step : β → Value × Nat → Eval (Turn β β))
    (place : Nat) (found : β) :
    placeTurn array step (place, found) m = match elements[place]? with
      | none => .ok (.done found) m
      | some element => (step found (element, place) >>= fun
          | .again found => return .again (place + 1, found)
          | .done found => return .done found) m := by
  show (Eval.read (elementNow array place) >>= _) m = _
  rw [EStateM.bind_apply, read_elementNow h]
  cases elements[place]? <;> rfl

/-- From the place of the first element on, a loop with turns enough walks through the elements, and
    the array is ready in the end.  Induction on the elements that are left. -/
theorem iterate_placeTurn (rest : List Value) (place bound : Nat) (h : m.Ready array elements)
    (hrest : elements.toList.drop place = rest) (hbound : rest.length < bound)
    (hdecide : ∀ found item result, Stays (·.Ready array elements) (decide found item result))
    (finish : β → Eval γ)
    (hsame : ∀ alarm, (walk (testedStep ((ofFuel n).call f) arguments decide array elements alarm)
        (rest.zipIdx place) found >>= finish) m =
      (walk (callingStep ((ofFuel n).call f) arguments decide) (rest.zipIdx place) found >>=
        finish) m) :
    iterate bound (placeTurn array (callingStep ((ofFuel n).call f) arguments decide))
        (place, found) m =
      walk (callingStep ((ofFuel n).call f) arguments decide) (rest.zipIdx place) found m ∧
    ((walk (callingStep ((ofFuel n).call f) arguments decide) (rest.zipIdx place) found).reached
      m).Ready array elements := by
  induction rest generalizing place bound found m with
  | nil =>
    obtain ⟨bound, rfl⟩ : ∃ less, bound = less + 1 := ⟨bound - 1, by omega⟩
    have hnone : elements[place]? = none := by
      have hlength := congrArg List.length hrest
      rw [List.length_drop, List.length_nil, Array.length_toList] at hlength
      exact Array.getElem?_eq_none (by omega)
    refine ⟨?_, h⟩
    unfold iterate
    rw [EStateM.bind_apply, placeTurn_apply h, hnone]
    rfl
  | cons element rest ih =>
    obtain ⟨bound, rfl⟩ : ∃ less, bound = less + 1 := ⟨bound - 1, by omega⟩
    have hplace : elements[place]? = some element := by
      have hhead := congrArg List.head? hrest
      rw [List.head?_drop, List.head?_cons] at hhead
      rw [← hhead, Array.getElem?_toList]
    have hdrop : elements.toList.drop (place + 1) = rest := by
      rw [← List.drop_drop, hrest]
      rfl
    rw [List.zipIdx_cons] at hsame ⊢
    unfold walk at hsame
    simp only [bind_assoc] at hsame
    unfold iterate walk Eval.reached
    rw [EStateM.bind_apply, placeTurn_apply h, hplace]
    dsimp only
    rw [EStateM.bind_apply, EStateM.bind_apply]
    rcases callingStep_cases h (element, place) hdecide hsame with
      ⟨halt, later, hresult, hready⟩ | ⟨decision, later, hresult, hready, hafter⟩
    · rw [hresult]
      exact ⟨rfl, hready⟩
    · rw [hresult]
      cases decision with
      | done found => exact ⟨rfl, hready⟩
      | again found =>
        exact ih (place + 1) bound hready hdrop (by simpa using hbound) hafter

end Evaluator

end Tao
