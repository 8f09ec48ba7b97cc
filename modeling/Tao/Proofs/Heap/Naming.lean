/-
  Assigning to names and defining them.

  1. **Assignment** — it succeeds where a scope outward binds the name, which properties of the
     global object do not count for, and sets the nearest binding (`AssignsNearest`).

  2. **Definition** — it succeeds where the scope is there and does not bind the name, and appends
     one binding (`DefinesHere`).

  3. **Frames** — what either does to the values of names is seen through one lemma
     (`AgreesBut.lookup_eq`): of two heaps that agree but for one binding, a lookup can tell them
     apart only where this is the nearest binding of the name, or where no scope binds the name and
     this is the binding of `global` that the lookup falls back on.

  4. **Sequences** — however often names are defined and assigned to, a scope binds each name once,
     and no binding is removed or moved (`NamesKept`).
-/
import Tao.Proofs.Heap.Outward

namespace Tao

namespace Heap

variable {heap before after : Heap} {id owner last : ScopeId} {name bound : String}
  {value old : Value} {spot : Spot} {n : Nat} {scope : Scope}

/-! ## Searches in heaps that agree -/

/-- The parent of a scope, in terms of what its handle resolves to and of its parent only: heaps
    that agree on these have the same chains. -/
theorem parentOf_eq_join (heap : Heap) (id : ScopeId) :
    heap.parentOf id = ((heap.scopes.get? id).map Scope.parent).join := by
  unfold parentOf
  cases heap.scopes.get? id <;> rfl

/-- Heaps that agree but for one value have the same parents. -/
theorem AgreesBut.parentOf (h : AgreesBut spot before after) (id : ScopeId) :
    after.parentOf id = before.parentOf id := by
  rw [parentOf_eq_join, parentOf_eq_join, h.parents]

/-- So their chains end together. -/
theorem AgreesBut.chainsEnd (h : AgreesBut spot before after) (hchains : before.ChainsEnd) :
    after.ChainsEnd := by
  intro id
  obtain ⟨n, hn⟩ := hchains id
  exact ⟨n, (outward_congr h.parentOf n id).trans hn⟩

/-- The scopes that bind a name are the same. -/
def SameBinders (name : String) (before after : Heap) : Prop :=
  ∀ id, after.valueAt (.binding id name) = none ↔ before.valueAt (.binding id name) = none

/-- A search takes the same way in heaps that agree but for one value, as long as the same scopes
    bind the name. -/
theorem Passes.agree (h : before.Passes name id n last) (hagrees : AgreesBut spot before after)
    (hbinders : SameBinders name before after) : after.Passes name id n last := by
  refine ⟨(outward_congr hagrees.parentOf n id).trans h.outward, fun i hi inner hinner => ?_⟩
  rw [outward_congr hagrees.parentOf] at hinner
  exact (hbinders inner).2 (h.free i hi inner hinner)

/-! ## What a search settles at decides what the name means -/

/-- A search that settles at a binding gives its value. -/
theorem ChainsEnd.lookup_of_bound (h : heap.ChainsEnd) (hpasses : heap.Passes name id n owner)
    (hvalue : heap.valueAt (.binding owner name) = some value) :
    heap.lookup id name = .ok (some value) := by
  unfold lookup
  rw [h.resolve_eq ⟨n, owner, hpasses, .bound hvalue⟩]

/-- A search that settles at the outermost scope falls back on the global object. -/
theorem ChainsEnd.lookup_of_unbound (h : heap.ChainsEnd) (hpasses : heap.Passes name id n last)
    (hget : heap.scopes.get? last = some scope) (hfree : scope.get? name = none)
    (houtermost : scope.parent = none) : heap.lookup id name = heap.globalProp scope name := by
  unfold lookup
  rw [h.resolve_eq ⟨n, last, hpasses, .unbound hget hfree houtermost⟩]

/-- A search that settles at a parent that is gone is an error that names it. -/
theorem ChainsEnd.lookup_of_stale (h : heap.ChainsEnd) (hpasses : heap.Passes name id n last)
    (hgone : heap.scopes.get? last = none) :
    heap.lookup id name = .error (.staleHandle .scope last) := by
  unfold lookup
  rw [h.resolve_eq ⟨n, last, hpasses, .stale hgone⟩]

/-! ## Frames -/

/-- A scope is there in both heaps, and has the same parent. -/
theorem AgreesBut.exists_scope (h : AgreesBut spot before after)
    (hget : before.scopes.get? id = some scope) :
    ∃ scope', after.scopes.get? id = some scope' ∧ scope'.parent = scope.parent := by
  have hparents := h.parents id
  rw [hget] at hparents
  exact Option.map_eq_some_iff.1 hparents

/-- The same property is read from an object. -/
theorem AgreesBut.prop_eq (h : AgreesBut spot before after) {object : ObjectId} {key : String}
    (hspot : .property object key ≠ spot) :
    (do return (← after.object object).props.get? key : Except RuntimeError (Option Value)) =
      do return (← before.object object).props.get? key := by
  have hvalue := h.values (.property object key) hspot
  have hthere := h.objects.resolves object
  rw [valueAt_property, valueAt_property] at hvalue
  unfold Heap.object
  cases hbefore : before.objects.get? object with
  | none =>
    rw [hbefore] at hthere
    have hafter : after.objects.get? object = none :=
      Option.isNone_iff_eq_none.1 (Option.isSome_eq_false_iff.1 hthere)
    rw [hafter]
  | some cell =>
    rw [hbefore] at hthere hvalue
    obtain ⟨cell', hafter⟩ := Option.isSome_iff_exists.1 hthere
    rw [hafter] at hvalue ⊢
    exact congrArg Except.ok hvalue

/-- Heaps that agree but for a binding have the same global object, if the outermost scope binds
    `global` alike. -/
theorem AgreesBut.globalProp_eq (h : AgreesBut (.binding owner bound) before after)
    {outermost outermost' : Scope}
    (hglobal : outermost'.get? Scope.globalName = outermost.get? Scope.globalName) (name : String) :
    after.globalProp outermost' name = before.globalProp outermost name := by
  unfold globalProp
  rw [hglobal]
  split
  · exact h.prop_eq nofun
  · rfl
  · rfl

/-- Where lookups cannot tell two heaps apart that agree but for one binding. -/
theorem AgreesBut.lookup_eq (h : AgreesBut (.binding owner bound) before after)
    (hchains : before.ChainsEnd) (hbinders : SameBinders name before after)
    (hnearest : ¬ (name = bound ∧ before.Nearest id name owner))
    (hglobal : ¬ (bound = Scope.globalName ∧ before.Unbound id name owner)) :
    after.lookup id name = before.lookup id name := by
  have hchains' := h.chainsEnd hchains
  obtain ⟨n, last, hpasses, hends⟩ := hchains.settles id name
  have hpasses' := hpasses.agree h hbinders
  generalize before.resolve id name = result at hends
  cases hends with
  | bound hvalue =>
    -- the binding that is found is not the one that may differ
    have hspot : Spot.binding last name ≠ .binding owner bound := by
      intro heq
      cases heq
      exact hnearest ⟨rfl, n, hpasses, Option.isSome_iff_exists.2 ⟨_, hvalue⟩⟩
    rw [hchains.lookup_of_bound hpasses hvalue,
      hchains'.lookup_of_bound hpasses' ((h.values _ hspot).trans hvalue)]
  | unbound hget hfree houtermost =>
    -- a property of the global object may be found, and the way there is a binding too
    obtain ⟨scope', hget', hparent⟩ := h.exists_scope hget
    have hfree' := (hbinders last).2 ((valueAt_of_get? hget name).trans hfree)
    rw [valueAt_of_get? hget'] at hfree'
    have hspot : Spot.binding last Scope.globalName ≠ .binding owner bound := by
      intro heq
      cases heq
      exact hglobal ⟨rfl, n, _, hpasses, hget, hfree, houtermost⟩
    have hsame := h.values _ hspot
    rw [valueAt_of_get? hget, valueAt_of_get? hget'] at hsame
    rw [hchains.lookup_of_unbound hpasses hget hfree houtermost,
      hchains'.lookup_of_unbound hpasses' hget' hfree' (hparent.trans houtermost)]
    exact h.globalProp_eq hsame name
  | stale hgone =>
    have hgone' : after.scopes.get? last = none := by
      have hparents := h.parents last
      rw [hgone] at hparents
      exact Option.map_eq_none_iff.1 hparents
    rw [hchains.lookup_of_stale hpasses hgone, hchains'.lookup_of_stale hpasses' hgone']

/-- A scope is asked alone. -/
theorem lookupHere_eq (heap : Heap) (id : ScopeId) (name : String) : heap.lookupHere id name =
    if (heap.scopes.get? id).isSome then .ok (heap.valueAt (.binding id name))
    else .error (.staleHandle .scope id) := by
  rw [valueAt_binding]
  unfold lookupHere Heap.scope
  cases heap.scopes.get? id <;> rfl

/-- Asking a single scope tells heaps that agree but for a binding apart only at this binding. -/
theorem AgreesBut.lookupHere_eq (h : AgreesBut (.binding owner bound) before after)
    (hspot : ¬ (id = owner ∧ name = bound)) :
    after.lookupHere id name = before.lookupHere id name := by
  have hvalue := h.values (.binding id name) fun heq => by
    cases heq
    exact hspot ⟨rfl, rfl⟩
  rw [Heap.lookupHere_eq, Heap.lookupHere_eq, h.scopes.resolves, hvalue]

/-! ## Assignment -/

/-- Of all lookups, only those that a binding decides see that it has a new value. -/
structure SeesBinding (owner : ScopeId) (bound : String) (value : Value) (before after : Heap) :
    Prop where
  /-- Where the binding is the nearest one of its name, the name has the value. -/
  nearest : ∀ start, before.Nearest start bound owner → after.lookup start bound = .ok (some value)
  /-- All else means what it meant, except for what is found on the global object, if the binding is
      that of the global object. -/
  others : ∀ start name, ¬ (name = bound ∧ before.Nearest start name owner) →
    ¬ (bound = Scope.globalName ∧ before.Unbound start name owner) →
    after.lookup start name = before.lookup start name
  here : after.lookupHere owner bound = .ok (some value)
  othersHere : ∀ start name, ¬ (start = owner ∧ name = bound) →
    after.lookupHere start name = before.lookupHere start name

/-- Setting a binding that is there binds nothing anew. -/
theorem Sets.sameBinders (h : Sets (.binding owner bound) value before after)
    (hbound : (before.valueAt (.binding owner bound)).isSome = true) (name : String) :
    SameBinders name before after := by
  intro id
  by_cases hspot : Spot.binding id name = .binding owner bound
  · rw [hspot, h.value]
    exact ⟨nofun, fun hnone => by rw [hnone] at hbound; cases hbound⟩
  · rw [h.rest.values _ hspot]

/-- Lookups see that a binding was set just where they should. -/
theorem Sets.seesBinding (h : Sets (.binding owner bound) value before after)
    (hbound : (before.valueAt (.binding owner bound)).isSome = true)
    (hchains : before.ChainsEnd) : SeesBinding owner bound value before after where
  nearest _ := fun ⟨_, hpasses, _⟩ =>
    (h.rest.chainsEnd hchains).lookup_of_bound
      (hpasses.agree h.rest (h.sameBinders hbound bound)) h.value
  others _ name := h.rest.lookup_eq hchains (h.sameBinders hbound name)
  here := by
    rw [lookupHere_eq, h.value]
    obtain ⟨scope, hget, -⟩ := Option.bind_eq_some_iff.1 h.value
    rw [hget]
    rfl
  othersHere _ _ := h.rest.lookupHere_eq

/-- What an assignment to a name does, seen from a scope. -/
structure AssignsNearest (heap : Heap) (id : ScopeId) (name : String) (value : Value) : Prop where
  succeeds : (∃ after, Store.assign id name value heap = .ok () after) ↔
    ∃ n owner, heap.outward n id = some owner ∧
      (heap.valueAt (.binding owner name)).isSome = true
  sets : ∀ after, Store.assign id name value heap = .ok () after → ∃ owner,
    heap.Nearest id name owner ∧ heap.Sets (.binding owner name) value after ∧
      heap.SeesBinding owner name value after
  fails : ∀ e after, Store.assign id name value heap = .error e after → after = heap

/-- What a name resolves to is a binding of a scope outward, which no scope before it shadows. -/
theorem exists_of_resolve_eq_bound (h : heap.resolve id name = .bound owner old) :
    ∃ n < heap.scopes.slots.size + 1, heap.Passes name id n owner ∧
      heap.valueAt (.binding owner name) = some old := by
  unfold resolve at h
  obtain ⟨n, hn, last, hpasses, hends⟩ := exists_passes_of_resolveWithin (by rw [h]; exact nofun)
  rw [h] at hends
  cases hends with
  | bound hvalue => exact ⟨n, hn, hpasses, hvalue⟩

/-- Assigning sets the binding that the name resolves to, or fails. -/
theorem assign_cases (heap : Heap) (id : ScopeId) (name : String) (value : Value) :
    (∃ owner old after, heap.resolve id name = .bound owner old ∧
      Store.assign id name value heap = .ok () after ∧
      heap.Sets (.binding owner name) value after) ∨
    (∀ owner old, heap.resolve id name ≠ .bound owner old) ∧
      ∃ e, Store.assign id name value heap = .error e heap := by
  unfold Store.assign
  cases hresolve : heap.resolve id name with
  | bound owner old =>
    have howner : Store.assignmentOwner id name heap = .ok owner := by
      unfold Store.assignmentOwner
      rw [hresolve]
    obtain ⟨n, -, -, hvalue⟩ := exists_of_resolve_eq_bound hresolve
    exact .inl ⟨owner, old, _, rfl, Store.change_of_check_ok howner,
      sets_rebind (Option.isSome_iff_exists.2 ⟨old, hvalue⟩)⟩
  | unbound | endless =>
    refine .inr ⟨nofun, .undefinedTarget name, Store.no_change_of_check_error ?_⟩
    unfold Store.assignmentOwner
    rw [hresolve]
  | stale gone =>
    refine .inr ⟨nofun, .staleHandle .scope gone, Store.no_change_of_check_error ?_⟩
    unfold Store.assignmentOwner
    rw [hresolve]

/-- Where a scope outward binds a name, one of them is the nearest. -/
theorem exists_nearest {outer : ScopeId} (houter : heap.outward n id = some outer)
    (hbound : (heap.valueAt (.binding outer name)).isSome = true) :
    ∃ owner, heap.Nearest id name owner := by
  induction n using Nat.strong_induction_on generalizing outer with
  | h n ih =>
    by_cases hnearer : ∃ i < n, ∃ inner, heap.outward i id = some inner ∧
        (heap.valueAt (.binding inner name)).isSome = true
    · obtain ⟨i, hi, inner, hinner, hinnerBound⟩ := hnearer
      exact ih i hi hinner hinnerBound
    · refine ⟨outer, n, ⟨houter, fun i hi inner hinner => ?_⟩, hbound⟩
      by_contra hne
      exact hnearer ⟨i, hi, inner, hinner, Option.isSome_iff_ne_none.2 hne⟩

/-- Where chains end, an assignment succeeds just if some scope outward binds the name, and sets the
    nearest binding. -/
theorem assignsNearest (hchains : heap.ChainsEnd) (id : ScopeId) (name : String) (value : Value) :
    heap.AssignsNearest id name value := by
  rcases heap.assign_cases id name value with
    ⟨owner, old, after, hresolve, hassign, hsets⟩ | ⟨hunbound, e, hassign⟩
  · obtain ⟨n, -, hpasses, hvalue⟩ := exists_of_resolve_eq_bound hresolve
    have hbound := Option.isSome_iff_exists.2 ⟨old, hvalue⟩
    refine ⟨⟨fun _ => ⟨n, owner, hpasses.outward, hbound⟩, fun _ => ⟨after, hassign⟩⟩, ?_, ?_⟩
    · intro after' hafter
      cases hassign.symm.trans hafter
      exact ⟨owner, ⟨n, hpasses, hbound⟩, hsets, hsets.seesBinding hbound hchains⟩
    · intro e after' hfails
      cases hassign.symm.trans hfails
  · have hfails : ∀ after, Store.assign id name value heap ≠ .ok () after := by
      intro after hok
      cases hassign.symm.trans hok
    refine ⟨⟨fun ⟨after, hok⟩ => absurd hok (hfails after), ?_⟩,
      fun after hok => absurd hok (hfails after), ?_⟩
    · rintro ⟨n, outer, houter, hbound⟩
      obtain ⟨owner, hnearest⟩ := exists_nearest houter hbound
      obtain ⟨old, hresolve⟩ := hnearest.exists_resolve_eq
      exact absurd hresolve (hunbound owner old)
    · intro e' after herror
      cases hassign.symm.trans herror
      rfl

/-! ## Definition -/

/-- One binding was appended to those of a scope, and nothing else has changed. -/
structure Adds (id : ScopeId) (name : String) (value : Value) (before after : Heap) : Prop where
  bindings : ∃ scope, before.scopes.get? id = some scope ∧
    after.scopes.get? id = some { scope with bindings := scope.bindings ++ [(name, value)] }
  others : ∀ other, other ≠ id → after.scopes.get? other = before.scopes.get? other
  rest : AgreesBut (.binding id name) before after

/-- What a definition of a name in a scope does. -/
structure DefinesHere (heap : Heap) (id : ScopeId) (name : String) (value : Value) : Prop where
  succeeds : (∃ after, Store.define id name value heap = .ok () after) ↔
    ∃ scope, heap.scopes.get? id = some scope ∧ scope.get? name = none
  adds : ∀ after, Store.define id name value heap = .ok () after → heap.Adds id name value after
  /-- No other name means anything else, except for what is found on the global object, if this is
      its binding. -/
  others : ∀ after, Store.define id name value heap = .ok () after → ∀ start other,
    other ≠ name → ¬ (name = Scope.globalName ∧ heap.Unbound start other id) →
    after.lookup start other = heap.lookup start other
  othersHere : ∀ after, Store.define id name value heap = .ok () after → ∀ start other,
    ¬ (start = id ∧ other = name) → after.lookupHere start other = heap.lookupHere start other
  fails : ∀ e after, Store.define id name value heap = .error e after → after = heap

/-- Appending one binding to a scope adds just this one. -/
theorem adds_append (hget : heap.scopes.get? id = some scope) (name : String) (value : Value) :
    heap.Adds id name value (heap.modifyScope id fun scope =>
      { scope with bindings := scope.bindings ++ [(name, value)] }) where
  bindings := by
    refine ⟨scope, hget, ?_⟩
    unfold modifyScope
    rw [Arena.get?_modify, if_pos rfl, hget]
    rfl
  others other hother := by
    unfold modifyScope
    rw [Arena.get?_modify, if_neg hother]
  rest := by
    refine agreesBut_modifyScope (fun scope other hother => ?_) (fun _ => rfl) fun _ => ⟨rfl, rfl⟩
    show (scope.bindings ++ [(name, value)]).lookup other = scope.bindings.lookup other
    rw [List.lookup_append, lookup_cons_eq_ite, if_neg hother]
    exact Option.or_none

/-- A definition appends a binding, or fails. -/
theorem define_cases (heap : Heap) (id : ScopeId) (name : String) (value : Value) :
    (∃ scope after, heap.scopes.get? id = some scope ∧ scope.get? name = none ∧
      Store.define id name value heap = .ok () after ∧ heap.Adds id name value after) ∨
    (∀ scope, heap.scopes.get? id = some scope → scope.get? name ≠ none) ∧
      ∃ e, Store.define id name value heap = .error e heap := by
  unfold Store.define
  cases hget : heap.scopes.get? id with
  | none =>
    refine .inr ⟨nofun, .staleHandle .scope id, Store.no_change_of_check_error ?_⟩
    unfold Heap.scope
    rw [hget]
    rfl
  | some scope =>
    have hcheck : (heap.scope id >>= (·.define name value)) = scope.define name value := by
      rw [scope_eq_ok_iff.2 hget]
      rfl
    cases hname : scope.get? name with
    | none =>
      have hdefine : scope.define name value =
          .ok { scope with bindings := scope.bindings ++ [(name, value)] } := by
        unfold Scope.define
        rw [hname]
        rfl
      exact .inl ⟨scope, _, rfl, hname, Store.change_of_check_ok (hcheck.trans hdefine),
        adds_append hget name value⟩
    | some old =>
      have hdefine : scope.define name value = .error (.alreadyDefined name) := by
        unfold Scope.define
        rw [hname]
        rfl
      refine .inr ⟨?_, _, Store.no_change_of_check_error (hcheck.trans hdefine)⟩
      intro other heq hfree
      cases heq
      cases hname.symm.trans hfree

/-- A new binding is one of its own name. -/
theorem Adds.sameBinders (h : before.Adds id name value after) {other : String}
    (hother : other ≠ name) : SameBinders other before after := by
  intro binder
  rw [h.rest.values (.binding binder other) fun heq => hother (Spot.binding.inj heq).2]

/-- Where chains end, a definition succeeds just if the scope is there and free for the name, and is
    seen just where it should. -/
theorem definesHere (hchains : heap.ChainsEnd) (id : ScopeId) (name : String) (value : Value) :
    heap.DefinesHere id name value := by
  rcases heap.define_cases id name value with
    ⟨scope, after, hget, hfree, hdefine, hadds⟩ | ⟨hbound, e, hdefine⟩
  · have hsame : ∀ after', Store.define id name value heap = .ok () after' → after' = after := by
      intro after' hafter
      cases hdefine.symm.trans hafter
      rfl
    refine ⟨⟨fun _ => ⟨scope, hget, hfree⟩, fun _ => ⟨after, hdefine⟩⟩, ?_, ?_, ?_, ?_⟩
    · intro after' hafter
      exact hsame after' hafter ▸ hadds
    · intro after' hafter start other hother hglobal
      rw [hsame after' hafter]
      exact hadds.rest.lookup_eq hchains (hadds.sameBinders hother) (fun h => hother h.1) hglobal
    · intro after' hafter start other hspot
      rw [hsame after' hafter]
      exact hadds.rest.lookupHere_eq hspot
    · intro e after' hfails
      cases hdefine.symm.trans hfails
  -- a definition that fails leaves no heap to speak of
  · have hfails : ∀ after, Store.define id name value heap ≠ .ok () after := by
      intro after hok
      cases hdefine.symm.trans hok
    refine ⟨⟨fun ⟨after, hok⟩ => absurd hok (hfails after), ?_⟩, ?_, ?_, ?_, ?_⟩
    · rintro ⟨scope, hget, hfree⟩
      exact absurd hfree (hbound scope hget)
    · exact fun after hok => absurd hok (hfails after)
    · exact fun after hok => absurd hok (hfails after)
    · exact fun after hok => absurd hok (hfails after)
    · intro e' after herror
      cases hdefine.symm.trans herror
      rfl

/-! ## Sequences -/

/-- A definition of a name in a scope, or an assignment to a name seen from it. -/
inductive Naming where
  | define (id : ScopeId) (name : String) (value : Value)
  | assign (id : ScopeId) (name : String) (value : Value)

/-- The heap that it comes to, whether it fails or not. -/
def Naming.apply (heap : Heap) : Naming → Heap
  | .define id name value => (Store.define id name value).after heap
  | .assign id name value => (Store.assign id name value).after heap

/-- Scopes keep their bindings, in the same order, and bind no name twice that was not. -/
structure NamesKept (before after : Heap) : Prop where
  kept : ∀ id scope, before.scopes.get? id = some scope →
    ∃ scope', after.scopes.get? id = some scope' ∧ scope.names <+: scope'.names
  distinct : (∀ id scope, before.scopes.get? id = some scope → scope.names.Nodup) →
    ∀ id scope, after.scopes.get? id = some scope → scope.names.Nodup

/-- Doing nothing keeps all names. -/
theorem NamesKept.refl (heap : Heap) : heap.NamesKept heap :=
  ⟨fun _ scope hget => ⟨scope, hget, List.prefix_refl _⟩, id⟩

/-- What is kept by two changes is kept by one after the other. -/
theorem NamesKept.trans {middle : Heap} (h : before.NamesKept middle)
    (h' : middle.NamesKept after) : before.NamesKept after := by
  refine ⟨fun id scope hget => ?_, fun hdistinct => h'.distinct (h.distinct hdistinct)⟩
  obtain ⟨scope', hget', hprefix⟩ := h.kept id scope hget
  obtain ⟨scope'', hget'', hprefix'⟩ := h'.kept id scope' hget'
  exact ⟨scope'', hget'', hprefix.trans hprefix'⟩

/-- Setting a spot leaves all names alone. -/
theorem Sets.namesKept (h : Sets spot value before after) : before.NamesKept after := by
  refine ⟨fun id scope hget => ?_, fun hdistinct id scope hget => ?_⟩
  · have hnames := h.names id
    rw [hget] at hnames
    obtain ⟨scope', hget', hsame⟩ := Option.map_eq_some_iff.1 hnames
    exact ⟨scope', hget', hsame ▸ List.prefix_refl _⟩
  · have hnames := (h.names id).symm
    rw [hget] at hnames
    obtain ⟨scope', hget', hsame⟩ := Option.map_eq_some_iff.1 hnames
    exact hsame ▸ hdistinct id scope' hget'

/-- A binding of a name that was free comes last and repeats none. -/
theorem Adds.namesKept (h : before.Adds id name value after)
    (hfree : before.valueAt (.binding id name) = none) : before.NamesKept after := by
  obtain ⟨scope, hget, hget'⟩ := h.bindings
  rw [valueAt_of_get? hget] at hfree
  have hnames : Scope.names { scope with bindings := scope.bindings ++ [(name, value)] } =
      scope.names ++ [name] := List.map_append
  refine ⟨fun other t hother => ?_, fun hdistinct other t hother => ?_⟩
  · by_cases hid : other = id
    · subst hid
      cases hget.symm.trans hother
      exact ⟨_, hget', hnames ▸ List.prefix_append _ _⟩
    · exact ⟨t, (h.others other hid).trans hother, List.prefix_refl _⟩
  · by_cases hid : other = id
    · subst hid
      cases hget'.symm.trans hother
      rw [hnames, ← List.concat_eq_append]
      exact (hdistinct other scope hget).concat (Scope.get?_eq_none_iff.1 hfree)
    · exact hdistinct other t ((h.others other hid).symm.trans hother)

/-- A definition or assignment keeps all names, also where it fails. -/
theorem Naming.namesKept (heap : Heap) (naming : Naming) :
    heap.NamesKept (naming.apply heap) := by
  cases naming with
  | define id name value =>
    show heap.NamesKept ((Store.define id name value).after heap)
    rcases heap.define_cases id name value with
      ⟨scope, after, hget, hfree, hdefine, hadds⟩ | ⟨-, e, hdefine⟩
    · rw [Store.after_of_ok hdefine]
      exact hadds.namesKept ((valueAt_of_get? hget name).trans hfree)
    · rw [Store.after_of_error hdefine]
      exact .refl heap
  | assign id name value =>
    show heap.NamesKept ((Store.assign id name value).after heap)
    rcases heap.assign_cases id name value with
      ⟨owner, old, after, -, hassign, hsets⟩ | ⟨-, e, hassign⟩
    · rw [Store.after_of_ok hassign]
      exact hsets.namesKept
    · rw [Store.after_of_error hassign]
      exact .refl heap

/-- And so does any number of them.  Induction on the sequence. -/
theorem namesKept_foldl (namings : List Naming) (heap : Heap) :
    heap.NamesKept (namings.foldl Naming.apply heap) := by
  induction namings generalizing heap with
  | nil => exact .refl heap
  | cons naming namings ih => exact (naming.namesKept heap).trans (ih _)

/-- **Names are resolved as they are assigned to.**  Where chains of parents end, assignments and
    definitions do what they should and are seen where they should be; and no sequence of them
    removes or moves a binding or binds a name twice. -/
theorem names_resolve (hchains : heap.ChainsEnd) :
    (∀ id name value, heap.AssignsNearest id name value ∧ heap.DefinesHere id name value) ∧
      ∀ namings : List Naming, heap.NamesKept (namings.foldl Naming.apply heap) :=
  ⟨fun id name value => ⟨assignsNearest hchains id name value, definesHere hchains id name value⟩,
    fun namings => namesKept_foldl namings heap⟩

/-- A scope inside of one that binds a name, which is assigned to from within. -/
theorem names_resolve_inner :
    let outer : Scope := ⟨[("x", .number 1)], none, false, none⟩
    let heap := ((Heap.empty.addScope outer).1.addScope (.inside (some ⟨0, 0⟩))).1
    heap.ChainsEnd ∧ heap.AssignsNearest ⟨1, 0⟩ "x" (.number 5) ∧
      ∃ after, Store.assign ⟨1, 0⟩ "x" (.number 5) heap = .ok () after := by
  intro outer heap
  have hempty : (Arena.empty : Arena .scope Scope).WellFormed := Arena.wellFormed_empty
  have houter := Arena.founded_empty.insert hempty (s := outer) nofun
  have hinner : ∀ parent, (Scope.inside (some ⟨0, 0⟩)).parent = some parent →
      ((Arena.empty : Arena .scope Scope).insert outer).1.Issued parent := by
    rintro _ ⟨⟩
    exact Arena.issued_insert_self hempty outer
  have hchains : heap.ChainsEnd :=
    chainsEnd_of_founded (houter.insert (Arena.wellFormed_insert hempty outer) hinner)
  have hassigns := ((names_resolve hchains).1 ⟨1, 0⟩ "x" (.number 5)).1
  have hreaches : ∃ n owner, heap.outward n ⟨1, 0⟩ = some owner ∧
      (heap.valueAt (.binding owner "x")).isSome = true := ⟨1, ⟨0, 0⟩, rfl, rfl⟩
  exact ⟨hchains, hassigns, hassigns.succeeds.2 hreaches⟩

end Heap

end Tao
