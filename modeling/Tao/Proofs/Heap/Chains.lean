/-
  Chains of scopes end.

  1. **Heaps that can be made** (`Made`) — whatever is done to a heap that is empty at first: scopes
     are made outermost or inside of any scope made before, gone or not; objects and arrays are made
     and changed; names are defined and assigned to and signals raised; and garbage is collected,
     from any roots.

  2. **The crux** — a slot is used again and again, so neither the index of a parent nor its
     generation tells that it is older than the scope inside of it.  But its handle was given out
     before, and with fewer than `2 ^ 32` collections no handle is given out twice
     (`Arena.History.Sound`), so the order in which scopes are made ranks each of them above the one
     around it (`Arena.Founded`).

  3. **Specification** (`ChainsShort`) — nothing is met twice on the way outward, and the search for
     a name settles within as many steps as there are scopes.
-/
import Tao.Proofs.Heap.History
import Tao.Proofs.Heap.Outward

namespace Tao

/-! ## Heaps that can be made -/

/-- The checked changes of scopes. -/
inductive Store.ChangesScope : Store Unit → Prop where
  | define (id : ScopeId) (name : String) (value : Value) : ChangesScope (define id name value)
  | assign (id : ScopeId) (name : String) (value : Value) : ChangesScope (assign id name value)
  | setReturned (id : ScopeId) (value : Value) : ChangesScope (setReturned id value)
  | setBroke (id : ScopeId) : ChangesScope (setBroke id)

namespace Heap

/-- So many collections and all else that was done have made this heap, and these are the handles of
    scopes that were given out, last one first. -/
inductive Made : (collections : Nat) → (given : List ScopeId) → Heap → Prop where
  | empty : Made 0 [] .empty
  | addScope {n : Nat} {given : List ScopeId} {heap : Heap} (h : Made n given heap) (scope : Scope)
    (hparent : ∀ parent, scope.parent = some parent → parent ∈ given) :
    Made n ((heap.addScope scope).2 :: given) (heap.addScope scope).1
  | addObject {n : Nat} {given : List ScopeId} {heap : Heap} (h : Made n given heap)
    (cell : ObjectCell) : Made n given (heap.addObject cell).1
  | addArray {n : Nat} {given : List ScopeId} {heap : Heap} (h : Made n given heap)
    (cell : ArrayCell) : Made n given (heap.addArray cell).1
  | changeScope {n : Nat} {given : List ScopeId} {heap : Heap} (h : Made n given heap)
    {x : Store Unit} (hx : x.ChangesScope) : Made n given (x.after heap)
  | modifyObject {n : Nat} {given : List ScopeId} {heap : Heap} (h : Made n given heap)
    (id : ObjectId) (f : ObjectCell → ObjectCell) : Made n given (heap.modifyObject id f)
  | modifyArray {n : Nat} {given : List ScopeId} {heap : Heap} (h : Made n given heap)
    (id : ArrayId) (f : ArrayCell → ArrayCell) : Made n given (heap.modifyArray id f)
  | collect {n : Nat} {given : List ScopeId} {heap : Heap} (h : Made n given heap)
    (scopes : List ScopeId) (values : List Value) :
    Made (n + 1) given (heap.collect scopes values).1

end Heap

/-! ## What every step keeps -/

namespace Arena

variable {scopes : Arena .scope Scope} {n : Nat} {given : List ScopeId}

/-- The scopes have a sound history in which these handles were given out, and they are founded. -/
structure Traced (scopes : Arena .scope Scope) (n : Nat) (given : List ScopeId) : Prop where
  history : ∃ h : History .scope Scope, h.Sound ∧ h.arena = scopes ∧ h.sweeps = n ∧ h.given = given
  founded : scopes.Founded

/-- No scope was made yet, and no handle given out. -/
theorem traced_empty : (empty : Arena .scope Scope).Traced 0 [] :=
  ⟨⟨.start, History.sound_start, rfl, rfl, rfl⟩, founded_empty⟩

/-- A sound history keeps its arena well formed. -/
theorem Traced.wellFormed (h : scopes.Traced n given) : scopes.WellFormed := by
  obtain ⟨history, hs, rfl, -, -⟩ := h.history
  exact hs.wellFormed

/-- A scope may be made inside of one that is gone, as long as its handle was given out. -/
theorem Traced.insert (h : scopes.Traced n given) {scope : Scope}
    (hparent : ∀ parent, scope.parent = some parent → parent ∈ given) :
    (scopes.insert scope).1.Traced n ((scopes.insert scope).2 :: given) := by
  obtain ⟨history, hs, rfl, rfl, rfl⟩ := h.history
  exact ⟨⟨history.step (.insert scope), hs.insert scope, rfl, rfl, rfl⟩,
    h.founded.insert hs.wellFormed fun parent hmem => hs.issued parent (hparent parent hmem)⟩

/-- A change that does not move a scope leaves the trace as it is. -/
theorem Traced.modify (h : scopes.Traced n given) (id : ScopeId) {f : Scope → Scope}
    (hf : ∀ s, (f s).parent = s.parent) : (scopes.modify id f).Traced n given := by
  obtain ⟨history, hs, rfl, rfl, rfl⟩ := h.history
  exact ⟨⟨history.step (.modify id f), hs.modify id f, rfl, rfl,
    History.given_map (fun given content => if given = id then content.map f else content) _⟩,
    h.founded.modify id hf⟩

/-- A sweep is one more in the history, and gives out no handle. -/
theorem Traced.sweep (h : scopes.Traced n given) (hfew : n + 1 < UInt32.size)
    (marks : Array Bool) : (scopes.sweep marks).1.Traced (n + 1) given := by
  obtain ⟨history, hs, rfl, rfl, rfl⟩ := h.history
  exact ⟨⟨history.step (.sweep marks), hs.sweep marks hfew, rfl, rfl,
    History.given_map (fun given content => if marks.getD given.index false then content else none)
      _⟩,
    h.founded.shrink (shrinks_sweep hs.wellFormed (hs.renewable hfew) marks)⟩

end Arena

namespace Heap

variable {heap : Heap} {n : Nat} {given : List ScopeId} {id : ScopeId} {name : String}

/-- Nothing was changed, or one scope was, and stays where it is. -/
def ScopesStay (before after : Heap) : Prop :=
  after = before ∨ ∃ id f, (∀ scope : Scope, (f scope).parent = scope.parent) ∧
    after = before.modifyScope id f

/-- A checked change of one scope changes that scope or, where the check fails, nothing. -/
theorem scopesStay_check {α : Type} (f : Heap → Except RuntimeError α) (target : α → ScopeId)
    {g : Scope → Scope} (hg : ∀ scope, (g scope).parent = scope.parent) (heap : Heap) :
    heap.ScopesStay ((Store.read f >>= fun a => modify (·.modifyScope (target a) g) :
      Store Unit).after heap) := by
  rcases Store.after_check f (fun a heap => heap.modifyScope (target a) g) heap with
    hsame | ⟨a, hchange⟩
  · exact .inl hsame
  · exact .inr ⟨target a, g, hg, hchange⟩

/-- None of the checked changes of scopes moves one: names and signals are all that they touch. -/
theorem scopesStay_of_changesScope {x : Store Unit} (hx : x.ChangesScope) (heap : Heap) :
    heap.ScopesStay (x.after heap) := by
  cases hx with
  | define id name value =>
    exact scopesStay_check _ (fun _ => id)
      (g := fun scope => { scope with bindings := scope.bindings ++ [(name, value)] })
      (fun _ => rfl) heap
  | assign id name value =>
    exact scopesStay_check _ (fun owner => owner)
      (g := fun scope => { scope with bindings := Scope.rebind name value scope.bindings })
      (fun _ => rfl) heap
  | setReturned id value =>
    exact scopesStay_check _ (fun _ => id)
      (g := fun scope => { scope with returned := some value }) (fun _ => rfl) heap
  | setBroke id =>
    exact scopesStay_check _ (fun _ => id)
      (g := fun scope => { scope with broke := true }) (fun _ => rfl) heap

/-- Induction on what was done. -/
theorem Made.traced (h : Made n given heap) (hfew : n < UInt32.size) :
    heap.scopes.Traced n given := by
  induction h with
  | empty => exact Arena.traced_empty
  | addScope _ _ hparent ih => exact (ih hfew).insert hparent
  | addObject _ _ ih => exact ih hfew
  | addArray _ _ ih => exact ih hfew
  | changeScope _ hx ih =>
    rcases scopesStay_of_changesScope hx _ with hsame | ⟨id, f, hf, hmodify⟩
    · rw [hsame]
      exact ih hfew
    · rw [hmodify]
      exact (ih hfew).modify id hf
  | modifyObject _ _ _ ih => exact ih hfew
  | modifyArray _ _ _ ih => exact ih hfew
  | collect _ _ _ ih => exact (ih (Nat.lt_of_succ_lt hfew)).sweep hfew _

/-! ## Short chains -/

/-- Chains of parents meet nothing twice and are no longer than there are scopes, and within as many
    steps the search for a name settles. -/
structure ChainsShort (heap : Heap) : Prop where
  counted : heap.scopes.live = heap.scopes.occupied
  ends : ∀ id n, heap.scopes.live < n → heap.outward n id = none
  /-- With the one that is come to, as long as it is there, no more scopes are met than there
      are. -/
  fewer : ∀ id n last, heap.outward n id = some last →
    (heap.scopes.get? last).isSome = true → n < heap.scopes.live
  distinct : ∀ id i j inner outer, i < j → heap.outward i id = some inner →
    heap.outward j id = some outer → inner ≠ outer
  settles : ∀ id name, ∃ n ≤ heap.scopes.live, ∃ last, heap.Passes name id n last ∧
    heap.Ends name last (heap.resolve id name)
  /-- It comes to the same with just so many steps. -/
  enough : ∀ id name steps, heap.scopes.live < steps →
    heap.resolveWithin name steps id = heap.resolve id name

/-- All about the length of chains follows from the rank that founded scopes have, and from the
    count of occupied slots being right. -/
theorem chainsShort_of_traced (h : heap.scopes.Traced n given) : heap.ChainsShort := by
  have hchains := chainsEnd_of_founded h.founded
  have hcounted := h.wellFormed.live_eq
  obtain ⟨rank, hrank⟩ := hchains.descends
  have hwalk : ∀ id name, ∃ n ≤ heap.scopes.live, ∃ last, heap.Passes name id n last ∧
      heap.Ends name last (heap.resolve id name) := by
    intro id name
    have hne := resolveWithin_ne_endless_of_occupied_lt hrank name id
      (Nat.lt_succ_self heap.scopes.occupied)
    obtain ⟨n, hn, last, hpasses, hends⟩ := exists_passes_of_resolveWithin hne
    rw [← hchains.resolve_eq ⟨n, last, hpasses, hends⟩] at hends
    exact ⟨n, by omega, last, hpasses, hends⟩
  refine ⟨hcounted, fun id n hn => ?_, fun id n last hlast hthere => ?_,
    fun id i j inner outer hij hi hj heq => ?_, hwalk, fun id name steps hsteps => ?_⟩
  · exact outward_eq_none_of_occupied_lt hrank id (hcounted ▸ hn)
  · exact hcounted ▸ lt_occupied_of_outward hrank hlast hthere
  · exact hchains.outward_ne hij hi (heq ▸ hj)
  · obtain ⟨n, hn, last, hpasses, hends⟩ := hwalk id name
    exact resolveWithin_of_passes hpasses hends (by omega)

/-! ## Failures -/

/-- The errors of looking a name up and of assigning to it: the name or its target is not defined,
    the global object is none, or a handle is stale. -/
inductive NameFails (name : String) : RuntimeError → Prop where
  | undefinedName : NameFails name (.undefinedName name)
  | undefinedTarget : NameFails name (.undefinedTarget name)
  | globalNotObject (type : ValueType) : NameFails name (.globalNotObject type)
  | staleHandle (kind : CellKind) (handle : Handle kind) : NameFails name (.staleHandle kind handle)

/-- Looking a name up fails where the walk outward does: at a stale handle, or at a global that is
    no object. -/
theorem nameFails_lookup {e : RuntimeError} (h : heap.lookup id name = .error e) :
    NameFails name e := by
  unfold lookup at h
  split at h
  · cases h
  · unfold globalProp at h
    split at h
    · next global _ =>
      unfold Heap.object at h
      cases hget : heap.objects.get? global with
      | none =>
        rw [hget] at h
        cases h
        exact .staleHandle .object global
      | some cell =>
        rw [hget] at h
        cases h
    · cases h
      exact .globalNotObject _
    · cases h
  · cases h
    exact .staleHandle .scope _
  · cases h

/-- Asking for the value of a name also fails where there is none. -/
theorem nameFails_valueOf {e : RuntimeError} (h : heap.valueOf id name = .error e) :
    NameFails name e := by
  unfold valueOf at h
  cases hlookup : heap.lookup id name with
  | error e' =>
    rw [hlookup] at h
    cases h
    exact nameFails_lookup hlookup
  | ok found =>
    rw [hlookup] at h
    cases found with
    | none =>
      cases h
      exact .undefinedName
    | some value => cases h

/-- Assigning fails only in the search for the owner of the name. -/
theorem nameFails_assign {value : Value} {e : RuntimeError} {after : Heap}
    (h : Store.assign id name value heap = .error e after) : NameFails name e := by
  have howner : Store.assignmentOwner id name heap = .error e := Store.check_of_change_error h
  unfold Store.assignmentOwner at howner
  split at howner
  · cases howner
  · cases howner
    exact .undefinedTarget
  · cases howner
    exact .undefinedTarget
  · cases howner
    exact .staleHandle .scope _

/-- These are errors of names and types, and stale handles. -/
theorem NameFails.category {e : RuntimeError} (h : NameFails name e) : e.category = .badName ∨
    e.category = .badType ∨ ∃ kind handle, e = .staleHandle kind handle := by
  cases h with
  | undefinedName | undefinedTarget => exact .inl rfl
  | globalNotObject type => exact .inr (.inl rfl)
  | staleHandle kind handle => exact .inr (.inr ⟨kind, handle, rfl⟩)

/-- **Chains of scopes are finite.**  Whatever was done to a heap with fewer than `2 ^ 32`
    collections, no scope is met twice on the way outward, and looking names up and assigning to
    them ends within as many steps as there are scopes.  What they fail with is an error of names or
    types, or a stale handle. -/
theorem chains_short (h : Made n given heap) (hfew : n < UInt32.size) :
    heap.ChainsShort ∧ ∀ id name e,
      (heap.lookup id name = .error e ∨ heap.valueOf id name = .error e ∨
        ∃ value after, Store.assign id name value heap = .error e after) →
      e.category = .badName ∨ e.category = .badType ∨ ∃ kind handle, e = .staleHandle kind handle := by
  refine ⟨chainsShort_of_traced (h.traced hfew), fun id name e hfails => ?_⟩
  rcases hfails with hlookup | hvalueOf | ⟨value, after, hassign⟩
  · exact (nameFails_lookup hlookup).category
  · exact (nameFails_valueOf hvalueOf).category
  · exact (nameFails_assign hassign).category

/-- A scope is made inside of one that is gone, in the slot that it had. -/
theorem chains_short_reusing :
    let gone := Heap.empty.addScope (.inside none)
    let late := (gone.1.collect [] []).1.addScope (.inside (some gone.2))
    Made 1 [late.2, gone.2] late.1 ∧ late.1.ChainsShort := by
  intro gone late
  have hgone : Made 0 [gone.2] gone.1 := .addScope .empty (.inside none) nofun
  have hlate : Made 1 [late.2, gone.2] late.1 := by
    refine .addScope (.collect hgone [] []) (.inside (some gone.2)) ?_
    rintro _ ⟨⟩
    exact List.mem_singleton_self _
  exact ⟨hlate, (chains_short hlate (by decide)).1⟩

end Heap

end Tao
