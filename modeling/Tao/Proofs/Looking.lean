/-
  Expressions that only look.

  The value of a name, a constant, or an index expression over such depends on the heap and the
  active scope, and evaluating it changes neither.  So it may be evaluated again, and by another
  evaluator, with the same result.

  1. **Values taken again** (`Value.Retaken`) — the one thing that differs is the stamp of a method,
     and nothing can be stored in or under a method.

  2. **Looking** (`Purely`) — a judgement on two computations: whatever was looked at before, they
     see the same.  There is one rule for each way to put computations together.

  3. **Endings** (`Leaves`, `Fails`) — so such a computation ends in one way, and so does storing to
     a place found again.
-/
import Tao.Evaluator.Fuel
import Tao.Proofs.Lockstep.Steps
import Tao.Proofs.Places

namespace Tao

variable {α β : Type}

/-! ## Targets -/

/-- Names, constants, and index expressions over them. -/
inductive Expression.IsPlain : Expression → Prop where
  | literal (value : Literal) : IsPlain (.literal value)
  | name (text : String) : IsPlain (.name text)
  | index {target key : Expression} (target_plain : IsPlain target) (key_plain : IsPlain key) :
    IsPlain (.index target key)

/-- How many levels of an evaluator such an expression takes. -/
def Expression.levels : Expression → Nat
  | .index target key => max target.levels key.levels + 1
  | _ => 1

/-- Every expression takes a level. -/
theorem Expression.levels_pos (e : Expression) : 0 < e.levels := by
  cases e <;> exact Nat.succ_pos _

/-! ## Values taken again -/

/-- A value of the type of numbers is one. -/
theorem Value.exists_number {value : Value} (h : value.type = .number) :
    ∃ n, value = .number n := by
  cases value with
  | number n => exact ⟨n, rfl⟩
  | _ => cases h

/-- The same value, or the same method taken from the same receiver at another time. -/
inductive Value.Retaken : Value → Value → Prop where
  | same (value : Value) : Retaken value value
  | arrayMethod (stamp stamp' : Nat) (method : ArrayMethod) (receiver : ArrayId) :
    Retaken (.builtin (.arrayMethod stamp method receiver))
      (.builtin (.arrayMethod stamp' method receiver))
  | stringMethod (stamp stamp' : Nat) (method : StringMethod) (receiver : String) :
    Retaken (.builtin (.stringMethod stamp method receiver))
      (.builtin (.stringMethod stamp' method receiver))

namespace Value.Retaken

variable {u v : Value}

/-- Taking a value again gives one of the same type. -/
theorem type_eq (h : Retaken u v) : v.type = u.type := by
  cases h <;> rfl

/-- A number is taken again as itself. -/
theorem number_eq {n : Int64} (h : Retaken (.number n) v) : v = .number n := by
  cases h
  rfl

/-- What is not the same is a method on both sides. -/
theorem eq_or_builtin (h : Retaken u v) :
    u = v ∨ ∃ builtin builtin', u = .builtin builtin ∧ v = .builtin builtin' := by
  cases h with
  | same => exact .inl rfl
  | arrayMethod => exact .inr ⟨_, _, rfl, rfl⟩
  | stringMethod => exact .inr ⟨_, _, rfl, rfl⟩

end Value.Retaken

/-- Places whose parts were taken again. -/
inductive Place.Retaken : Place → Place → Prop where
  | name (text : String) : Retaken (.name text) (.name text)
  | slot {target target' key key' : Value} (target_retaken : target.Retaken target')
    (key_retaken : key.Retaken key') : Retaken (.slot target key) (.slot target' key')

theorem Place.Retaken.refl (place : Place) : place.Retaken place := by
  cases place with
  | name text => exact .name text
  | slot target key => exact .slot (.same target) (.same key)

/-- Methods are neither stored in nor stored under, so it does not matter when they were taken. -/
theorem storeSlot_retaken {target target' key key' : Value} (htarget : target.Retaken target')
    (hkey : key.Retaken key') (value : Value) :
    storeSlot target' key' value = storeSlot target key value := by
  rcases htarget.eq_or_builtin with rfl | ⟨_, _, rfl, rfl⟩
  · rcases hkey.eq_or_builtin with rfl | ⟨_, _, rfl, rfl⟩
    · rfl
    · cases target <;> rfl
  · rfl

/-! ## Looking -/

/-- Values were held and stamps given out; nothing else was done. -/
def Machine.Looked (m later : Machine) : Prop := ∃ held stamps, later = { m with held, stamps }

namespace Machine.Looked

variable {m later last : Machine}

theorem refl (m : Machine) : m.Looked m := ⟨m.held, m.stamps, rfl⟩

/-- Looking leaves the heap. -/
theorem heap_eq (h : m.Looked later) : later.heap = m.heap := by
  obtain ⟨_, _, rfl⟩ := h
  rfl

theorem scope_eq (h : m.Looked later) : later.scope = m.scope := by
  obtain ⟨_, _, rfl⟩ := h
  rfl

/-- Holding one more value is still but looking. -/
theorem keep (h : m.Looked later) (value : Value) :
    m.Looked { later with held := value :: later.held } := by
  obtain ⟨_, stamps, rfl⟩ := h
  exact ⟨_, stamps, rfl⟩

theorem stamped (h : m.Looked later) : m.Looked { later with stamps := later.stamps + 1 } := by
  obtain ⟨held, _, rfl⟩ := h
  exact ⟨held, _, rfl⟩

end Machine.Looked

/-- The result of a computation on a machine. -/
abbrev Eval.Result (α : Type) := EStateM.Result (Halt RuntimeError) Machine α

/-- Two results of looking around in one machine: related values, or one and the same error. -/
inductive LooksAlike (m : Machine) (R : α → β → Prop) : Eval.Result α → Eval.Result β → Prop where
  | ok {a : α} {b : β} {m₁ m₂ : Machine} (left : m.Looked m₁) (right : m.Looked m₂) (rel : R a b) :
    LooksAlike m R (.ok a m₁) (.ok b m₂)
  | error {e : RuntimeError} {m₁ m₂ : Machine} (left : m.Looked m₁) (right : m.Looked m₂) :
    LooksAlike m R (.error (.failed e) m₁) (.error (.failed e) m₂)

/-- Two computations only look, and see the same whatever was looked at before. -/
def Purely (m : Machine) (R : α → β → Prop) (x : Eval α) (y : Eval β) : Prop :=
  ∀ m₁ m₂, m.Looked m₁ → m.Looked m₂ → LooksAlike m R (x m₁) (y m₂)

namespace Purely

variable {m : Machine} {α' β' : Type} {R : α → β → Prop} {S : α' → β' → Prop} {x : Eval α}
  {y : Eval β}

/-- Giving related results sees nothing at all. -/
theorem pure {a : α} {b : β} (h : R a b) : Purely m R (pure a) (pure b) :=
  fun _ _ h₁ h₂ => .ok h₁ h₂ h

/-- Failing sees nothing, either. -/
theorem fail (e : RuntimeError) : Purely m R (Tao.fail e) (Tao.fail e) :=
  fun _ _ h₁ h₂ => .error h₁ h₂

/-- A sequence only looks if its parts do; where the first sees an error, so does the whole. -/
theorem bind {f : α → Eval α'} {g : β → Eval β'} (h : Purely m R x y)
    (hfg : ∀ a b, R a b → Purely m S (f a) (g b)) : Purely m S (x >>= f) (y >>= g) := by
  intro m₁ m₂ h₁ h₂
  have hfirst := h m₁ m₂ h₁ h₂
  rw [EStateM.bind_apply, EStateM.bind_apply]
  generalize x m₁ = r at hfirst ⊢
  generalize y m₂ = s at hfirst ⊢
  cases hfirst with
  | ok left right rel => exact hfg _ _ rel _ _ left right
  | error left right => exact .error left right

/-- The heap is the same, so the same is read from it. -/
theorem read {R : α → α → Prop} (hR : ∀ a, R a a) (f : Heap → Except RuntimeError α) :
    Purely m R (Eval.read f) (Eval.read f) := by
  intro m₁ m₂ h₁ h₂
  unfold Eval.read
  rw [h₁.heap_eq, h₂.heap_eq]
  cases f m.heap with
  | ok a => exact .ok h₁ h₂ (hR a)
  | error e => exact .error h₁ h₂

/-- Keeping what was seen is no more than looking. -/
theorem kept {x y : Eval Value} (h : Purely m Value.Retaken x y) :
    Purely m Value.Retaken (Eval.kept x) (Eval.kept y) :=
  h.bind fun u v huv _ _ h₁ h₂ => .ok (h₁.keep u) (h₂.keep v) huv

end Purely

/-- An array's member is looked up under a new stamp each time. -/
theorem Heap.memberOfArray_retaken (heap : Heap) (stamp stamp' : Nat) (array : ArrayId)
    (key : String) :
    (∃ u v, heap.memberOfArray stamp array key = .ok u ∧
      heap.memberOfArray stamp' array key = .ok v ∧ u.Retaken v) ∨
    ∃ e, heap.memberOfArray stamp array key = .error e ∧
      heap.memberOfArray stamp' array key = .error e := by
  cases hcell : heap.arrays.get? array with
  | none =>
    have hstale : ∀ stamp, heap.memberOfArray stamp array key =
        .error (.staleHandle .array array) := by
      intro stamp
      unfold memberOfArray Heap.array
      rw [hcell]
      rfl
    exact .inr ⟨_, hstale stamp, hstale stamp'⟩
  | some cell =>
    left
    by_cases hown : isOwnMember key = true
    · have hoffered : ∃ member, cell.Offers array stamp key member :=
        isOwnMember_eq_true_iff.1 hown
      obtain ⟨member, hoffers⟩ := hoffered
      cases hoffers with
      | length =>
        exact ⟨_, _, memberOfArray_of_offers hcell .length, memberOfArray_of_offers hcell .length,
          .same _⟩
      | method method =>
        exact ⟨_, _, memberOfArray_of_offers hcell (.method method),
          memberOfArray_of_offers hcell (.method method), .arrayMethod stamp stamp' method array⟩
    · have hkey := Bool.eq_false_iff.2 hown
      exact ⟨_, _, memberOfArray_of_not_own hcell hkey, memberOfArray_of_not_own hcell hkey,
        .same _⟩

/-- A member of a string is a method taken again, or nil. -/
theorem memberOfString_retaken (stamp stamp' : Nat) (receiver key : String) :
    (memberOfString stamp receiver key).Retaken (memberOfString stamp' receiver key) := by
  unfold memberOfString
  cases StringMethod.ofName? key with
  | none => exact .same _
  | some method => exact .stringMethod stamp stamp' method receiver

section Looking

variable {m : Machine} {n n' : Nat} {e : Expression}

/-- Loading from one slot twice. -/
theorem purely_loadSlot_same (target key : Value) :
    Purely m Value.Retaken (loadSlot target key) (loadSlot target key) := by
  unfold loadSlot
  split
  case h_3 array key =>
    intro m₁ m₂ h₁ h₂
    have hlook : ∀ later : Machine, m.Looked later →
        (Eval.freshStamp >>= fun stamp => Eval.read (·.memberOfArray stamp array key)) later =
          Eval.read (fun _ => m.heap.memberOfArray later.stamps array key)
            { later with stamps := later.stamps + 1 } := by
      intro later h
      rw [← h.heap_eq]
      rfl
    rw [hlook m₁ h₁, hlook m₂ h₂]
    rcases m.heap.memberOfArray_retaken m₁.stamps m₂.stamps array key with
      ⟨u, v, hu, hv, huv⟩ | ⟨e, hu, hv⟩
    · rw [hu, hv]
      exact .ok h₁.stamped h₂.stamped huv
    · rw [hu, hv]
      exact .error h₁.stamped h₂.stamped
  case h_5 text key =>
    intro m₁ m₂ h₁ h₂
    exact .ok h₁.stamped h₂.stamped (memberOfString_retaken m₁.stamps m₂.stamps text key)
  all_goals first | exact .read .same _ | exact .fail _

/-- Loading from a slot whose parts were taken again: either they are the same, or one of them is a
    method, and then there is nothing to load. -/
theorem purely_loadSlot {target target' key key' : Value} (htarget : target.Retaken target')
    (hkey : key.Retaken key') :
    Purely m Value.Retaken (loadSlot target key) (loadSlot target' key') := by
  rcases htarget.eq_or_builtin with rfl | ⟨_, _, rfl, rfl⟩
  · rcases hkey.eq_or_builtin with rfl | ⟨_, _, rfl, rfl⟩
    · exact purely_loadSlot_same target key
    · cases target <;> exact .fail _
  · exact .fail (.notIndexable .builtin)

/-- Loading from a place whose parts were taken again. -/
theorem purely_load {place place' : Place} (h : place.Retaken place') :
    Purely m Value.Retaken place.load place'.load := by
  cases h with
  | name text =>
    intro m₁ m₂ h₁ h₂
    show LooksAlike m _ (Eval.read (·.valueOf m₁.scope text) m₁)
      (Eval.read (·.valueOf m₂.scope text) m₂)
    rw [h₁.scope_eq, h₂.scope_eq]
    exact Purely.read .same _ m₁ m₂ h₁ h₂
  | slot htarget hkey => exact purely_loadSlot htarget hkey

namespace Evaluator

/-- The value of a name or an index expression is what is loaded from its place. -/
theorem express_eq_load (k : Evaluator) (h : e.isPlace = true) :
    k.express e = k.place e >>= Place.load := by
  cases e with
  | name text => rfl
  | index target key =>
    show (k.evaluate target >>= fun target => k.evaluate key >>= fun key => loadSlot target key) = _
    unfold place
    simp only [bind_assoc, pure_bind]
    rfl
  | _ => cases h

/-- A plain expression is a constant or stands for a place. -/
theorem purely_evaluate (h : e.IsPlain) (hn : e.levels ≤ n) (hn' : e.levels ≤ n') :
    Purely m Value.Retaken ((ofFuel n).evaluate e) ((ofFuel n').evaluate e) := by
  induction h generalizing n n' with
  | literal value =>
    obtain ⟨n, rfl⟩ : ∃ below, n = below + 1 := ⟨n - 1, by unfold Expression.levels at hn; omega⟩
    obtain ⟨n', rfl⟩ : ∃ below, n' = below + 1 :=
      ⟨n' - 1, by unfold Expression.levels at hn'; omega⟩
    rw [evaluate_succ, evaluate_succ]
    exact .kept (.pure (.same _))
  | name text =>
    obtain ⟨n, rfl⟩ : ∃ below, n = below + 1 := ⟨n - 1, by unfold Expression.levels at hn; omega⟩
    obtain ⟨n', rfl⟩ : ∃ below, n' = below + 1 :=
      ⟨n' - 1, by unfold Expression.levels at hn'; omega⟩
    rw [evaluate_succ, evaluate_succ]
    exact .kept (purely_load (.name text))
  | @index target key _ _ htarget hkey =>
    unfold Expression.levels at hn hn'
    obtain ⟨n, rfl⟩ : ∃ below, n = below + 1 := ⟨n - 1, by omega⟩
    obtain ⟨n', rfl⟩ : ∃ below, n' = below + 1 := ⟨n' - 1, by omega⟩
    rw [evaluate_succ, evaluate_succ]
    refine .kept ((htarget (by omega) (by omega)).bind fun u v huv => ?_)
    exact (hkey (by omega) (by omega)).bind fun _ _ hkeys => purely_loadSlot huv hkeys

/-- The place that a plain expression stands for is found again. -/
theorem purely_place (h : e.IsPlain) (hn : e.levels ≤ n + 1) (hn' : e.levels ≤ n' + 1) :
    Purely m Place.Retaken ((ofFuel n).place e) ((ofFuel n').place e) := by
  cases h with
  | literal value => exact .fail _
  | name text => exact .pure (.name text)
  | @index target key htarget hkey =>
    unfold Expression.levels at hn hn'
    refine (purely_evaluate htarget (by omega) (by omega)).bind fun _ _ htargets => ?_
    refine (purely_evaluate hkey (by omega) (by omega)).bind fun _ _ hkeys => ?_
    exact .pure (.slot htargets hkeys)

end Evaluator

end Looking

/-! ## How computations end -/

namespace Machine

variable {m : Machine} {α' : Type} {x : Eval α} {f : α → Eval α'} {heap middle : Heap}
  {P : α → Prop} {Q : α' → Prop} {e : RuntimeError}

/-- However much was looked at before, `x` gives what satisfies `P`, and the heap is this one. -/
def Leaves (m : Machine) (x : Eval α) (heap : Heap) (P : α → Prop) : Prop :=
  ∀ later, m.Looked later → ∃ a next, x later = .ok a next ∧ Looked { m with heap } next ∧ P a

/-- However much was looked at before, `x` fails with this error and does no more than look. -/
def Fails (m : Machine) (x : Eval α) (e : RuntimeError) : Prop :=
  ∀ later, m.Looked later → ∃ next, x later = .error (.failed e) next ∧ m.Looked next

/-- What leaves one heap, and then another, leaves the last. -/
theorem Leaves.bind (hx : m.Leaves x middle P)
    (hf : ∀ a, P a → Leaves { m with heap := middle } (f a) heap Q) :
    m.Leaves (x >>= f) heap Q := by
  intro later hlater
  obtain ⟨a, next, hresult, hnext, ha⟩ := hx later hlater
  rw [EStateM.bind_of_ok hresult]
  exact hf a ha next hnext

/-- What only looks and then fails has failed. -/
theorem Leaves.failing (hx : m.Leaves x m.heap P) (hf : ∀ a, P a → m.Fails (f a) e) :
    m.Fails (x >>= f) e := by
  intro later hlater
  obtain ⟨a, next, hresult, hnext, ha⟩ := hx later hlater
  rw [EStateM.bind_of_ok hresult]
  exact hf a ha next hnext

/-- What is claimed of the result may be weakened. -/
theorem Leaves.imp {P' : α → Prop} (hx : m.Leaves x heap P) (h : ∀ a, P a → P' a) :
    m.Leaves x heap P' := by
  intro later hlater
  obtain ⟨a, next, hresult, hnext, ha⟩ := hx later hlater
  exact ⟨a, next, hresult, hnext, h a ha⟩

theorem Leaves.pure {a : α} (h : P a) : m.Leaves (pure a) m.heap P :=
  fun _ hlater => ⟨a, _, rfl, hlater, h⟩

theorem Leaves.kept {x : Eval Value} {P : Value → Prop} (h : m.Leaves x heap P) :
    m.Leaves (Eval.kept x) heap P :=
  h.bind fun a ha _ hlater => ⟨a, _, rfl, hlater.keep a, ha⟩

/-- What fails does so before anything that would come after. -/
theorem Fails.bind (h : m.Fails x e) : m.Fails (x >>= f) e := by
  intro later hlater
  obtain ⟨next, hresult, hnext⟩ := h later hlater
  exact ⟨next, EStateM.bind_of_error hresult, hnext⟩

/-- There is nothing to keep then. -/
theorem Fails.kept {x : Eval Value} (h : m.Fails x e) : m.Fails (Eval.kept x) e := h.bind

/-- Failing does no more than look. -/
theorem fails_fail (e : RuntimeError) : m.Fails (Tao.fail e : Eval α) e :=
  fun later hlater => ⟨later, rfl, hlater⟩

end Machine

/-- Computations that see what one of them sees end as that one does. -/
theorem Purely.ends {m : Machine} {ι : Type} {p : ι → Prop} {R : α → β → Prop} {x : Eval α}
    {y : ι → Eval β} (h : ∀ i, p i → Purely m R x (y i)) (i : ι) (hi : p i) :
    (∃ a, ∀ i, p i → m.Leaves (y i) m.heap (R a)) ∨ ∃ e, ∀ i, p i → m.Fails (y i) e := by
  have hfirst := h i hi m m (.refl m) (.refl m)
  cases hx : x m with
  | ok a next =>
    refine .inl ⟨a, fun i hi later hlater => ?_⟩
    have hsame := h i hi m later (.refl m) hlater
    rw [hx] at hsame
    generalize hy : y i later = r at hsame
    cases hsame with
    | ok _ right rel => exact ⟨_, _, rfl, right, rel⟩
  | error halt next =>
    rw [hx] at hfirst
    generalize y i m = r at hfirst
    cases hfirst with
    | @error e _ _ _ _ =>
      refine .inr ⟨e, fun i hi later hlater => ?_⟩
      have hsame := h i hi m later (.refl m) hlater
      rw [hx] at hsame
      generalize hy : y i later = r at hsame
      cases hsame with
      | error _ right => exact ⟨_, rfl, right⟩

/-! ## Storing to a place taken again -/

/-- Storing under a key is some change of the heap. -/
theorem storeSlot_eq_store (target key value : Value) :
    ∃ x, storeSlot target key value = Eval.store x := by
  unfold storeSlot
  split
  case h_3 => split <;> first | exact ⟨_, rfl⟩ | exact ⟨fun heap => .error _ heap, rfl⟩
  all_goals first | exact ⟨_, rfl⟩ | exact ⟨fun heap => .error _ heap, rfl⟩

/-- What a store does to the heap depends on the place and on the active scope. -/
theorem Place.exists_store_eq (place : Place) (value : Value) (scope : ScopeId) :
    ∃ x, ∀ place', place.Retaken place' → ∀ m : Machine, m.scope = scope →
      place'.store value m = Eval.store x m := by
  cases place with
  | name text =>
    refine ⟨Store.assign scope text value, fun place' h m hscope => ?_⟩
    cases h
    rw [← hscope]
    rfl
  | slot target key =>
    obtain ⟨x, hx⟩ := storeSlot_eq_store target key value
    refine ⟨x, fun place' h m _ => ?_⟩
    cases h with
    | slot htarget hkey =>
      exact congrFun ((storeSlot_retaken htarget hkey value).trans hx) m

/-- Places taken again are stored to with one effect on the heap. -/
theorem Place.store_ends (place : Place) (value : Value) (m : Machine) :
    (∃ heap, ∀ place', place.Retaken place' → m.Leaves (place'.store value) heap fun _ => True) ∨
      ∃ e, ∀ place', place.Retaken place' → m.Fails (place'.store value) e := by
  obtain ⟨x, hx⟩ := place.exists_store_eq value m.scope
  cases hstore : x m.heap with
  | ok a heap =>
    refine .inl ⟨heap, fun place' hplace later hlooked => ?_⟩
    have hlater : x later.heap = .ok a heap := hlooked.heap_eq ▸ hstore
    have hresult := (hx place' hplace later hlooked.scope_eq).trans (Eval.store_of_ok hlater)
    obtain ⟨held, stamps, rfl⟩ := hlooked
    exact ⟨a, _, hresult, ⟨held, stamps, rfl⟩, trivial⟩
  | error e heap =>
    have hfirst : place.store value m = .error (.failed e) { m with heap } := by
      rw [hx place (.refl place) m rfl]
      unfold Eval.store
      rw [hstore]
    have hheap : heap = m.heap := by
      rcases place.store_cases value m with ⟨after, hstores⟩ | ⟨e, herror⟩
      · cases hstores.ends.symm.trans hfirst
      · injection herror.symm.trans hfirst with _ hm
        exact congrArg Machine.heap hm.symm
    subst hheap
    refine .inr ⟨e, fun place' hplace later hlooked => ?_⟩
    have hlater : x later.heap = .error e later.heap := hlooked.heap_eq ▸ hstore
    exact ⟨later, (hx place' hplace later hlooked.scope_eq).trans (Eval.store_of_error hlater),
      hlooked⟩

end Tao
