/-
  Which values have a text, and what it depends on.

  1. **Specification** — an array SHOWS its elements and an object the values of its properties, and
     nothing else shows anything (`Heap.Shows`).  A value DANGLES if it refers to an array or object
     that is gone.  A value has a text if and only if nothing that it leads to dangles.

  2. **The crux** — the text of a container met again inside of itself is cut off, so not everything
     that a value leads to is visited on every path.  But whatever is led to is led to without
     coming back (`exists_step_avoiding`), and such a path is visited to its end.  All inductions
     are on the containers that are not open.

  3. **Depth** — one step of the text puts together the texts of the parts (`displayStep`).  After
     as many steps as there are containers, and one more, nothing is left to be put together.

  4. **Handles** — heaps whose containers correspond one to one give corresponding values the same
     text, whatever the handles (`Heap.Matched`).
-/
import Mathlib.Data.List.Forall2
import Mathlib.Logic.Function.Iterate
import Mathlib.Logic.Relation
import Tao.Heap.Display

namespace Tao

open Relation (ReflTransGen)

/-! ## Paths that do not come back -/

/-- What is reached from somewhere is reached without coming back to it. -/
theorem exists_step_avoiding {α : Type} {r : α → α → Prop} {a x : α} (h : ReflTransGen r a x)
    (hne : x ≠ a) : ∃ b, r a b ∧ ReflTransGen (fun u w => r u w ∧ u ≠ a) b x := by
  induction h with
  | refl => exact absurd rfl hne
  | @tail y x _ hlast ih =>
    by_cases hy : y = a
    · subst hy
      exact ⟨x, hlast, .refl⟩
    · obtain ⟨b, hfirst, hpath⟩ := ih hy
      exact ⟨b, hfirst, hpath.tail ⟨hlast, hy⟩⟩

/-! ## Lists of results -/

section Results

variable {α β γ ε : Type} {f : α → Except ε β} {as : List α}

/-- Either all results are there and something is made of them, or one of them is an error. -/
theorem mapM_cases (f : α → Except ε β) (make : List β → γ) (as : List α) :
    (∃ c, make <$> as.mapM f = .ok c) ∧ (∀ a ∈ as, ∃ b, f a = .ok b) ∨
    ∃ e, ∃ a ∈ as, make <$> as.mapM f = .error e ∧ f a = .error e := by
  induction as generalizing make with
  | nil => exact .inl ⟨⟨make [], rfl⟩, fun a ha => absurd ha List.not_mem_nil⟩
  | cons a rest ih =>
    rw [List.mapM_cons]
    cases hfirst : f a with
    | error e => exact .inr ⟨e, a, List.mem_cons_self, rfl, hfirst⟩
    | ok b =>
      have hmake : (make <$> do return b :: (← rest.mapM f)) =
          (make ∘ (b :: ·)) <$> rest.mapM f := by
        cases rest.mapM f <;> rfl
      show (∃ c, (make <$> do return b :: (← rest.mapM f)) = .ok c) ∧ _ ∨
        ∃ e, ∃ x ∈ _, (make <$> do return b :: (← rest.mapM f)) = .error e ∧ _
      rw [hmake]
      rcases ih (make ∘ (b :: ·)) with ⟨hok, hall⟩ | ⟨e, x, hx, herror, hfx⟩
      · exact .inl ⟨hok, List.forall_mem_cons.2 ⟨⟨b, hfirst⟩, hall⟩⟩
      · exact .inr ⟨e, x, List.mem_cons_of_mem a hx, herror, hfx⟩

/-- A list is mapped alike by what does the same to each of its elements. -/
theorem mapM_congr {g : α → Except ε β} (h : ∀ a ∈ as, f a = g a) : as.mapM f = as.mapM g := by
  induction as with
  | nil => rfl
  | cons a rest ih =>
    obtain ⟨hfirst, hrest⟩ := List.forall_mem_cons.1 h
    rw [List.mapM_cons, List.mapM_cons, hfirst, ih hrest]

/-- A labelled text is there only if the text is. -/
theorem exists_ok_of_labelled {key labelled : String} {x : Except ε String}
    (h : (do return key ++ ":" ++ (← x)) = .ok labelled) : ∃ text, x = .ok text := by
  cases x with
  | ok text => exact ⟨text, rfl⟩
  | error e => cases h

/-- What is the matter with a labelled text is the matter with the text. -/
theorem error_of_labelled {key : String} {x : Except ε String} {e : ε}
    (h : (do return key ++ ":" ++ (← x)) = .error e) : x = .error e := by
  cases x with
  | ok text => cases h
  | error e => exact h

end Results

/-! ## What values show -/

/-- The container that a value is, if it is one. -/
def Value.container? : Value → Option Container
  | .array id => some (.array id)
  | .object id => some (.object id)
  | _ => none

/-- A container is the container of one value only. -/
theorem Value.container?_injective {u v : Value} {c : Container} (hu : u.container? = some c)
    (hv : v.container? = some c) : u = v := by
  cases u <;> cases hu <;> cases v <;> cases hv <;> rfl

namespace Heap

variable {heap : Heap} {opened : List Container} {value part gone : Value} {c : Container}
  {e : RuntimeError}

/-- The text of one value contains that of another as a part. -/
inductive Shows (heap : Heap) : Value → Value → Prop where
  | element {id : ArrayId} {cell : ArrayCell} {part : Value}
    (here : heap.arrays.get? id = some cell) (edge : part ∈ cell.elements.toList) :
    Shows heap (.array id) part
  | property {id : ObjectId} {cell : ObjectCell} {key : String} {part : Value}
    (here : heap.objects.get? id = some cell) (edge : (key, part) ∈ cell.props) :
    Shows heap (.object id) part

/-- A value refers to an array or object that is gone, which is this error. -/
inductive Dangles (heap : Heap) : Value → RuntimeError → Prop where
  | array {id : ArrayId} (stale : heap.arrays.get? id = none) :
    Dangles heap (.array id) (.staleHandle .array id)
  | object {id : ObjectId} (stale : heap.objects.get? id = none) :
    Dangles heap (.object id) (.staleHandle .object id)

/-- Some part of the value, or of its parts and so on, is this one. -/
def Leads (heap : Heap) : Value → Value → Prop := ReflTransGen heap.Shows

/-- Is this value not an open container? -/
def IsClosed (opened : List Container) (value : Value) : Prop :=
  ∀ c, value.container? = some c → c ∉ opened

/-- The same through containers that are not open. -/
def LeadsPast (heap : Heap) (opened : List Container) : Value → Value → Prop :=
  ReflTransGen fun u w => heap.Shows u w ∧ IsClosed opened u

/-- With nothing open, every path is past what is open. -/
theorem leadsPast_nil : heap.LeadsPast [] value part ↔ heap.Leads value part := by
  have hclosed : ∀ value, IsClosed [] value := fun _ _ _ => List.not_mem_nil
  constructor
  · intro h
    exact ReflTransGen.mono (fun _ _ hstep => hstep.1) _ _ h
  · intro h
    exact ReflTransGen.mono (fun u _ hstep => ⟨hstep, hclosed u⟩) _ _ h

/-- A dangling value is an internal error. -/
theorem Dangles.category (h : heap.Dangles value e) : e.category = .internal := by
  cases h <;> rfl

/-- Only containers dangle. -/
theorem Dangles.exists_container (h : heap.Dangles value e) : ∃ c, value.container? = some c := by
  cases h <;> exact ⟨_, rfl⟩

/-- Only containers show anything. -/
theorem Shows.exists_container (h : heap.Shows value part) : ∃ c, value.container? = some c := by
  cases h <;> exact ⟨_, rfl⟩

/-- What is there does not dangle. -/
theorem not_dangles_array {id : ArrayId} {cell : ArrayCell}
    (h : heap.arrays.get? id = some cell) (e : RuntimeError) : ¬ heap.Dangles (.array id) e := by
  intro hdangles
  cases hdangles with
  | array hstale => cases h.symm.trans hstale

/-- The same of objects. -/
theorem not_dangles_object {id : ObjectId} {cell : ObjectCell}
    (h : heap.objects.get? id = some cell) (e : RuntimeError) : ¬ heap.Dangles (.object id) e := by
  intro hdangles
  cases hdangles with
  | object hstale => cases h.symm.trans hstale

/-! ## One step of the text -/

/-- The text of a value, if `below` gives the texts of its parts. -/
def displayStep (heap : Heap) (below : List Container → Value → Except RuntimeError String)
    (opened : List Container) : Value → Except RuntimeError String
  | .nil => .ok "nil"
  | .boolean value => .ok (toString value)
  | .number value => .ok (toString value.toInt)
  | .string value => .ok (if opened.isEmpty then value else Text.quoted value)
  | .function closure => .ok s!"function({closure.name})"
  | .builtin builtin => .ok s!"builtin({builtin.name})"
  | .maker maker => .ok s!"class({maker.name})"
  | .array id =>
    if .array id ∈ opened then .ok "[...]"
    else do
      let cell ← heap.array id
      let parts ← cell.elements.toList.mapM (below (.array id :: opened))
      return "[" ++ ",".intercalate parts ++ "]"
  | .object id =>
    if .object id ∈ opened then .ok "\x7b...\x7d"
    else do
      let cell ← heap.object id
      let parts ← cell.props.mapM fun prop => do
        return prop.1 ++ ":" ++ (← below (.object id :: opened) prop.2)
      return "\x7b" ++ ",".intercalate parts ++ "\x7d"

/-- The text of a value is put together from texts of its parts. -/
theorem displayIn_eq_displayStep (opened : List Container) (value : Value) :
    heap.displayIn opened value = heap.displayStep heap.displayIn opened value := by
  cases value with
  | array id =>
    rw [displayIn, displayStep]
    split
    · rfl
    · split
      · next e he =>
        rw [he]
        rfl
      · next cell hcell =>
        rw [hcell]
        rfl
  | object id =>
    rw [displayIn, displayStep]
    split
    · rfl
    · split
      · next e he =>
        rw [he]
        rfl
      · next cell hcell =>
        rw [hcell]
        rfl
  | _ => rw [displayIn, displayStep]

/-- An array met again inside of itself is cut off, and so is its text. -/
theorem displayIn_array_of_mem {id : ArrayId} (h : .array id ∈ opened) :
    heap.displayIn opened (.array id) = .ok "[...]" := by
  rw [displayIn_eq_displayStep, displayStep, if_pos h]

/-- The same of an object. -/
theorem displayIn_object_of_mem {id : ObjectId} (h : .object id ∈ opened) :
    heap.displayIn opened (.object id) = .ok "\x7b...\x7d" := by
  rw [displayIn_eq_displayStep, displayStep, if_pos h]

/-- The text of an array that is not open, in terms of texts inside of it. -/
theorem displayIn_array {id : ArrayId} (h : .array id ∉ opened) :
    heap.displayIn opened (.array id) = (do
      let cell ← heap.array id
      let parts ← cell.elements.toList.mapM (heap.displayIn (.array id :: opened))
      return "[" ++ ",".intercalate parts ++ "]") := by
  rw [displayIn_eq_displayStep, displayStep, if_neg h]

/-- The text of an object that is not open, in terms of texts inside of it. -/
theorem displayIn_object {id : ObjectId} (h : .object id ∉ opened) :
    heap.displayIn opened (.object id) = (do
      let cell ← heap.object id
      let parts ← cell.props.mapM fun prop => do
        return prop.1 ++ ":" ++ (← heap.displayIn (.object id :: opened) prop.2)
      return "\x7b" ++ ",".intercalate parts ++ "\x7d") := by
  rw [displayIn_eq_displayStep, displayStep, if_neg h]

/-- What happens to a container that is not open: it is gone, or all of its parts have a text and so
    has it, or a part has none and then neither has it. -/
theorem displayIn_cases (hc : value.container? = some c) (hclosed : c ∉ opened) :
    (∃ e, heap.Dangles value e ∧ heap.displayIn opened value = .error e) ∨
    (∀ e, ¬ heap.Dangles value e) ∧ c ∈ heap.containers ∧
      ((∃ text, heap.displayIn opened value = .ok text) ∧
          (∀ part, heap.Shows value part → ∃ text, heap.displayIn (c :: opened) part = .ok text) ∨
        ∃ e part, heap.displayIn opened value = .error e ∧ heap.Shows value part ∧
          heap.displayIn (c :: opened) part = .error e) := by
  cases value with
  | array id =>
    cases hc
    rw [displayIn_array hclosed]
    cases hget : heap.arrays.get? id with
    | none =>
      left
      refine ⟨.staleHandle .array id, .array hget, ?_⟩
      unfold Heap.array
      rw [hget]
      rfl
    | some cell =>
      have harray := array_eq_ok_iff.2 hget
      refine .inr ⟨not_dangles_array hget, array_mem_containers harray, ?_⟩
      rw [harray]
      -- the first part that has no text decides, if there is one
      rcases mapM_cases (heap.displayIn (.array id :: opened))
          (fun parts => "[" ++ ",".intercalate parts ++ "]") cell.elements.toList with
        ⟨⟨text, htext⟩, hparts⟩ | ⟨e, part, hmem, herror, hpart⟩
      · left
        refine ⟨⟨text, htext⟩, ?_⟩
        intro part hshows
        cases hshows with
        | element here edge =>
          cases hget.symm.trans here
          exact hparts part edge
      · exact .inr ⟨e, part, herror, .element hget hmem, hpart⟩
  | object id =>
    cases hc
    rw [displayIn_object hclosed]
    cases hget : heap.objects.get? id with
    | none =>
      left
      refine ⟨.staleHandle .object id, .object hget, ?_⟩
      unfold Heap.object
      rw [hget]
      rfl
    | some cell =>
      have hobject := object_eq_ok_iff.2 hget
      refine .inr ⟨not_dangles_object hget, object_mem_containers hobject, ?_⟩
      rw [hobject]
      rcases mapM_cases
          (fun prop : String × Value => do
            return prop.1 ++ ":" ++ (← heap.displayIn (.object id :: opened) prop.2))
          (fun parts => "\x7b" ++ ",".intercalate parts ++ "\x7d") cell.props with
        ⟨⟨text, htext⟩, hparts⟩ | ⟨e, ⟨key, part⟩, hmem, herror, hpart⟩
      · left
        refine ⟨⟨text, htext⟩, ?_⟩
        intro part hshows
        cases hshows with
        | @property _ _ key _ here edge =>
          cases hget.symm.trans here
          obtain ⟨labelled, hlabelled⟩ := hparts (key, part) edge
          exact exists_ok_of_labelled hlabelled
      · exact .inr ⟨e, part, herror, .property hget hmem, error_of_labelled hpart⟩
  | _ => cases hc

/-- What is no container has a text by itself. -/
theorem exists_displayIn_of_not_container (hc : value.container? = none) :
    ∃ text, heap.displayIn opened value = .ok text := by
  cases value with
  | array _ | object _ => cases hc
  | _ =>
    rw [displayIn_eq_displayStep]
    exact ⟨_, rfl⟩

/-- A container that is open already has a text, that of being cut off. -/
theorem exists_displayIn_of_mem (hc : value.container? = some c) (hopen : c ∈ opened) :
    ∃ text, heap.displayIn opened value = .ok text := by
  cases value with
  | array id =>
    cases hc
    exact ⟨_, displayIn_array_of_mem hopen⟩
  | object id =>
    cases hc
    exact ⟨_, displayIn_object_of_mem hopen⟩
  | _ => cases hc

/-! ## Which values have a text -/

/-- An error is about a container that is gone, and the value leads to it. -/
theorem leadsPast_of_displayIn (h : heap.displayIn opened value = .error e) :
    ∃ gone, heap.LeadsPast opened value gone ∧ heap.Dangles gone e ∧ IsClosed opened gone := by
  induction hn : heap.closed opened using Nat.strongRecOn generalizing opened value with
  | ind n ih =>
    subst hn
    cases hc : value.container? with
    | none =>
      obtain ⟨text, htext⟩ := exists_displayIn_of_not_container hc
      cases htext.symm.trans h
    | some c =>
      by_cases hopen : c ∈ opened
      · obtain ⟨text, htext⟩ := exists_displayIn_of_mem hc hopen
        cases htext.symm.trans h
      have hclosed : IsClosed opened value := by
        intro d hd
        cases hc.symm.trans hd
        exact hopen
      -- inside of this container one more is open, and so fewer are closed
      rcases displayIn_cases hc hopen with
        ⟨e', hdangles, herror⟩ | ⟨-, hmem, ⟨⟨text, htext⟩, -⟩ | ⟨e', part, herror, hshows, hpart⟩⟩
      · cases herror.symm.trans h
        exact ⟨value, .refl, hdangles, hclosed⟩
      · cases htext.symm.trans h
      · cases herror.symm.trans h
        obtain ⟨gone, hleads, hdangles, hgone⟩ := ih _ (closed_cons hmem hopen) hpart rfl
        -- what goes around one container more goes around those that were open
        have hwiden : ∀ w, IsClosed (c :: opened) w → IsClosed opened w := by
          intro w hw d hd hin
          exact hw d hd (List.mem_cons_of_mem c hin)
        have hleads : heap.LeadsPast opened part gone :=
          ReflTransGen.mono (fun u _ hstep => ⟨hstep.1, hwiden u hstep.2⟩) _ _ hleads
        exact ⟨gone, hleads.head ⟨hshows, hclosed⟩, hdangles, hwiden gone hgone⟩

/-- What leads to a container that is gone has no text. -/
theorem displayIn_of_leadsPast (hleads : heap.LeadsPast opened value gone)
    (hdangles : heap.Dangles gone e) (hgone : IsClosed opened gone) :
    ∃ e', heap.displayIn opened value = .error e' := by
  induction hn : heap.closed opened using Nat.strongRecOn generalizing opened value with
  | ind n ih =>
    subst hn
    by_cases hhere : gone = value
    · subst hhere
      obtain ⟨c, hc⟩ := hdangles.exists_container
      rcases displayIn_cases hc (hgone c hc) with ⟨e', -, herror⟩ | ⟨hthere, -⟩
      · exact ⟨e', herror⟩
      · exact absurd hdangles (hthere e)
    · -- the rest of the way goes around `value`, so it may be open
      obtain ⟨part, ⟨hshows, hclosed⟩, hrest⟩ := exists_step_avoiding hleads hhere
      obtain ⟨c, hc⟩ := hshows.exists_container
      have hnarrow : ∀ w, IsClosed opened w → w ≠ value → IsClosed (c :: opened) w := by
        intro w hw hne d hd hin
        rcases List.mem_cons.1 hin with rfl | hin
        · exact hne (Value.container?_injective hd hc)
        · exact hw d hd hin
      rcases displayIn_cases hc (hclosed c hc) with
        ⟨e', -, herror⟩ | ⟨-, hmem, ⟨-, hparts⟩ | ⟨e', -, herror, -⟩⟩
      · exact ⟨e', herror⟩
      · have hrest : heap.LeadsPast (c :: opened) part gone :=
          ReflTransGen.mono (fun u _ hstep => ⟨hstep.1.1, hnarrow u hstep.1.2 hstep.2⟩) _ _ hrest
        obtain ⟨e', herror⟩ :=
          ih _ (closed_cons hmem (hclosed c hc)) hrest (hnarrow gone hgone hhere) rfl
        obtain ⟨text, htext⟩ := hparts part hshows
        cases htext.symm.trans herror
      · exact ⟨e', herror⟩

/-! ## How deep the text goes -/

/-- A step asks for texts inside of one more container of the heap, and nowhere else. -/
theorem displayStep_congr {below below' : List Container → Value → Except RuntimeError String}
    (h : ∀ c ∈ heap.containers, c ∉ opened → ∀ part, below (c :: opened) part =
      below' (c :: opened) part) :
    heap.displayStep below opened value = heap.displayStep below' opened value := by
  cases value with
  | array id =>
    rw [displayStep, displayStep]
    split
    · rfl
    · next hopen =>
      cases hcell : heap.array id with
      | error e => rfl
      | ok cell =>
        have hparts : cell.elements.toList.mapM (below (.array id :: opened)) =
            cell.elements.toList.mapM (below' (.array id :: opened)) :=
          mapM_congr fun part _ => h _ (array_mem_containers hcell) hopen part
        show (do
          let parts ← cell.elements.toList.mapM (below (.array id :: opened))
          return "[" ++ ",".intercalate parts ++ "]") = _
        rw [hparts]
        rfl
  | object id =>
    rw [displayStep, displayStep]
    split
    · rfl
    · next hopen =>
      cases hcell : heap.object id with
      | error e => rfl
      | ok cell =>
        have hparts : (cell.props.mapM fun prop : String × Value => do
              return prop.1 ++ ":" ++ (← below (.object id :: opened) prop.2)) =
            cell.props.mapM fun prop : String × Value => do
              return prop.1 ++ ":" ++ (← below' (.object id :: opened) prop.2) := by
          apply mapM_congr
          intro prop _
          rw [h _ (object_mem_containers hcell) hopen prop.2]
        show (do
          let parts ← cell.props.mapM fun prop : String × Value => do
            return prop.1 ++ ":" ++ (← below (.object id :: opened) prop.2)
          return "\x7b" ++ ",".intercalate parts ++ "\x7d") = _
        rw [hparts]
        rfl
  | _ => rw [displayStep, displayStep]

/-- As many steps as there are closed containers, and one more, put together the whole text. -/
theorem iterate_displayStep (below : List Container → Value → Except RuntimeError String) (n : Nat)
    (hn : heap.closed opened < n) :
    heap.displayStep^[n] below opened value = heap.displayIn opened value := by
  induction n generalizing opened value with
  | zero => omega
  | succ n ih =>
    rw [Function.iterate_succ_apply', displayIn_eq_displayStep]
    apply displayStep_congr
    intro c hmem hnew part
    have hlt := closed_cons hmem hnew
    exact ih (by omega)

end Heap

/-! ## Corresponding heaps -/

/-- Which containers of one heap correspond to which of another. -/
structure Matching where
  object : ObjectId → ObjectId → Prop
  array : ArrayId → ArrayId → Prop

/-- Values of the same kind that differ in handles only.  Of a function or a built-in function its
    name has to be the same. -/
inductive Value.Matches (m : Matching) : Value → Value → Prop where
  | nil : Matches m .nil .nil
  | boolean (value : Bool) : Matches m (.boolean value) (.boolean value)
  | number (value : Int64) : Matches m (.number value) (.number value)
  | string (value : String) : Matches m (.string value) (.string value)
  | object {a b : ObjectId} (paired : m.object a b) : Matches m (.object a) (.object b)
  | array {a b : ArrayId} (paired : m.array a b) : Matches m (.array a) (.array b)
  | function {f g : Closure} (named : f.name = g.name) : Matches m (.function f) (.function g)
  | builtin {f g : Builtin} (named : f.name = g.name) : Matches m (.builtin f) (.builtin g)
  | maker (maker : Maker) : Matches m (.maker maker) (.maker maker)

/-- Containers of the same kind whose handles correspond. -/
inductive Container.Matches (m : Matching) : Container → Container → Prop where
  | object {a b : ObjectId} (paired : m.object a b) : Matches m (.object a) (.object b)
  | array {a b : ArrayId} (paired : m.array a b) : Matches m (.array a) (.array b)

/-- Containers correspond one to one, both are there or neither is, and then they have corresponding
    elements, or the same keys with corresponding values. -/
structure Heap.Matched (m : Matching) (left right : Heap) : Prop where
  objectUnique : ∀ {a b a' b'}, m.object a b → m.object a' b' → (a = a' ↔ b = b')
  arrayUnique : ∀ {a b a' b'}, m.array a b → m.array a' b' → (a = a' ↔ b = b')
  objects : ∀ {a b}, m.object a b →
    Option.Rel (fun c d : ObjectCell =>
        List.Forall₂ (fun x y => x.1 = y.1 ∧ x.2.Matches m y.2) c.props d.props)
      (left.objects.get? a) (right.objects.get? b)
  arrays : ∀ {a b}, m.array a b →
    Option.Rel (fun c d : ArrayCell =>
        List.Forall₂ (Value.Matches m) c.elements.toList d.elements.toList)
      (left.arrays.get? a) (right.arrays.get? b)

section Options

variable {α β γ ε : Type}

/-- Forgetting which error it was commutes with sequencing. -/
theorem toOption_bind (x : Except ε α) (f : α → Except ε β) :
    (x >>= f).toOption = x.toOption >>= fun a => (f a).toOption := by
  cases x <;> rfl

theorem toOption_mapM (f : α → Except ε β) (as : List α) :
    (as.mapM f).toOption = as.mapM fun a => (f a).toOption := by
  induction as with
  | nil => rfl
  | cons a rest ih =>
    rw [List.mapM_cons, List.mapM_cons, toOption_bind, ← ih]
    apply congrArg
    funext b
    rw [toOption_bind]
    rfl

/-- Related beginnings with the same continuations come to the same. -/
theorem bind_eq_of_rel {r : α → β → Prop} {x : Option α} {y : Option β} {f : α → Option γ}
    {g : β → Option γ} (hxy : Option.Rel r x y)
    (hfg : ∀ a b, x = some a → r a b → f a = g b) : x >>= f = y >>= g := by
  cases hxy with
  | some hab => exact hfg _ _ rfl hab
  | none => rfl

/-- Lists are mapped alike if their elements are, one by one. -/
theorem mapM_eq_of_forall₂ {f : α → Option γ} {g : β → Option γ} {as : List α} {bs : List β}
    (h : List.Forall₂ (fun a b => f a = g b) as bs) : as.mapM f = bs.mapM g := by
  induction h with
  | nil => rfl
  | cons hhead _ ih => rw [List.mapM_cons, List.mapM_cons, hhead, ih]

end Options

namespace Heap

variable {m : Matching} {left right : Heap} {cs ds : List Container} {u v : Value}

/-- Reading an array, without its error, is what the handle resolves to. -/
theorem toOption_array (heap : Heap) (id : ArrayId) :
    (heap.array id).toOption = heap.arrays.get? id := by
  unfold Heap.array
  cases heap.arrays.get? id <;> rfl

/-- Reading an object, without its error, is what the handle resolves to. -/
theorem toOption_object (heap : Heap) (id : ObjectId) :
    (heap.object id).toOption = heap.objects.get? id := by
  unfold Heap.object
  cases heap.objects.get? id <;> rfl

namespace Matched

/-- What corresponds is open on one side if and only if it is on the other. -/
theorem mem_iff (hm : Matched m left right) (hopened : List.Forall₂ (Container.Matches m) cs ds)
    {c d : Container} (h : c.Matches m d) : c ∈ cs ↔ d ∈ ds := by
  induction hopened with
  | nil => exact ⟨fun h => absurd h List.not_mem_nil, fun h => absurd h List.not_mem_nil⟩
  | @cons c' d' _ _ hhead _ ih =>
    have hsame : c = c' ↔ d = d' := by
      cases h with
      | object hab =>
        cases hhead with
        | object hab' =>
          rw [Container.object.injEq, Container.object.injEq]
          exact hm.objectUnique hab hab'
        | array _ => exact ⟨nofun, nofun⟩
      | array hab =>
        cases hhead with
        | object _ => exact ⟨nofun, nofun⟩
        | array hab' =>
          rw [Container.array.injEq, Container.array.injEq]
          exact hm.arrayUnique hab hab'
    rw [List.mem_cons, List.mem_cons, hsame, ih]

/-- Corresponding values have the same text, or neither has one.  Strong induction on the containers
    that are not open on the left. -/
theorem displayIn_eq (hm : Matched m left right)
    (hopened : List.Forall₂ (Container.Matches m) cs ds) (huv : u.Matches m v) :
    (left.displayIn cs u).toOption = (right.displayIn ds v).toOption := by
  induction hn : left.closed cs using Nat.strongRecOn generalizing cs ds u v with
  | ind n ih =>
    subst hn
    cases huv with
    | @array a b hab =>
      -- the container is open on both sides or on neither
      have hmem := hm.mem_iff hopened (.array hab)
      by_cases hopen : .array a ∈ cs
      · rw [displayIn_array_of_mem hopen, displayIn_array_of_mem (hmem.1 hopen)]
      · rw [displayIn_array hopen, displayIn_array fun h => hopen (hmem.2 h), toOption_bind,
          toOption_bind, toOption_array, toOption_array]
        apply bind_eq_of_rel (hm.arrays hab)
        intro c d hc hcd
        have hlt := closed_cons (array_mem_containers (array_eq_ok_iff.2 hc)) hopen
        have hparts : (c.elements.toList.mapM fun x => (left.displayIn (.array a :: cs) x).toOption)
            = d.elements.toList.mapM fun y => (right.displayIn (.array b :: ds) y).toOption := by
          apply mapM_eq_of_forall₂
          exact hcd.imp fun x y hxy => ih _ hlt (.cons (.array hab) hopened) hxy rfl
        rw [toOption_bind, toOption_bind, toOption_mapM, toOption_mapM, hparts]
    | @object a b hab =>
      have hmem := hm.mem_iff hopened (.object hab)
      by_cases hopen : .object a ∈ cs
      · rw [displayIn_object_of_mem hopen, displayIn_object_of_mem (hmem.1 hopen)]
      · rw [displayIn_object hopen, displayIn_object fun h => hopen (hmem.2 h), toOption_bind,
          toOption_bind, toOption_object, toOption_object]
        apply bind_eq_of_rel (hm.objects hab)
        intro c d hc hcd
        have hlt := closed_cons (object_mem_containers (object_eq_ok_iff.2 hc)) hopen
        rw [toOption_bind, toOption_bind, toOption_mapM, toOption_mapM]
        have hparts : (c.props.mapM fun x : String × Value => (do
              return x.1 ++ ":" ++ (← left.displayIn (.object a :: cs) x.2)
              : Except RuntimeError String).toOption) =
            d.props.mapM fun y : String × Value => (do
              return y.1 ++ ":" ++ (← right.displayIn (.object b :: ds) y.2)
              : Except RuntimeError String).toOption := by
          apply mapM_eq_of_forall₂
          refine hcd.imp fun x y hxy => ?_
          rw [toOption_bind, toOption_bind, ih _ hlt (.cons (.object hab) hopened) hxy.2 rfl, hxy.1]
        rw [hparts]
    | string text =>
      rw [displayIn, displayIn]
      cases hopened <;> rfl
    | function named | builtin named =>
      rw [displayIn, displayIn, named]
    | nil | boolean _ | number _ | maker _ => rw [displayIn, displayIn]

end Matched

/-! ## The text of a value -/

/-- Putting together the text of a value comes to an end, however many values and cycles the heap
    has.  There is no text if and only if the value leads to an array or object that is gone; that
    is an internal error.  In a corresponding heap a corresponding value has the same text. -/
theorem display_ends (heap : Heap) (value : Value) :
    (∀ below n, heap.containers.length < n →
        heap.displayStep^[n] below [] value = heap.display value) ∧
    ((∃ e, heap.display value = .error e ∧ e.category = .internal) ↔
        ∃ gone e, heap.Leads value gone ∧ heap.Dangles gone e) ∧
    ((∃ text, heap.display value = .ok text) ↔
        ¬ ∃ gone e, heap.Leads value gone ∧ heap.Dangles gone e) ∧
    ∀ (m : Matching) (other : Heap) (image : Value), heap.Matched m other →
      value.Matches m image → (heap.display value).toOption = (other.display image).toOption := by
  have hnil : ∀ value, IsClosed [] value := fun _ _ _ => List.not_mem_nil
  -- an error tells of a container that is gone and that the value leads to; and whatever leads
  -- to one has no text
  have hfound : ∀ e, heap.display value = .error e → ∃ gone, heap.Leads value gone ∧
      heap.Dangles gone e := by
    intro e herror
    obtain ⟨gone, hleads, hdangles, -⟩ := leadsPast_of_displayIn herror
    exact ⟨gone, leadsPast_nil.1 hleads, hdangles⟩
  have hmissed : (∃ gone e, heap.Leads value gone ∧ heap.Dangles gone e) →
      ∃ e, heap.display value = .error e := by
    rintro ⟨gone, e, hleads, hdangles⟩
    exact displayIn_of_leadsPast (leadsPast_nil.2 hleads) hdangles (hnil gone)
  refine ⟨?_, ?_, ?_, ?_⟩
  · intro below n hn
    have hle : heap.closed [] ≤ heap.containers.length := List.countP_le_length
    exact iterate_displayStep below n (by omega)
  · constructor
    · rintro ⟨e, herror, -⟩
      obtain ⟨gone, hleads, hdangles⟩ := hfound e herror
      exact ⟨gone, e, hleads, hdangles⟩
    · intro h
      obtain ⟨e, herror⟩ := hmissed h
      obtain ⟨gone, -, hdangles⟩ := hfound e herror
      exact ⟨e, herror, hdangles.category⟩
  · constructor
    · rintro ⟨text, htext⟩ h
      obtain ⟨e, herror⟩ := hmissed h
      cases htext.symm.trans herror
    · intro h
      cases hresult : heap.display value with
      | ok text => exact ⟨text, rfl⟩
      | error e =>
        obtain ⟨gone, hleads, hdangles⟩ := hfound e hresult
        exact absurd ⟨gone, e, hleads, hdangles⟩ h
  · intro m other image hm hvalue
    exact hm.displayIn_eq .nil hvalue

/-- An array that contains itself has the same text in the first slot of its heap as in the second
    of another one, and two steps put it together. -/
theorem display_ends_selfContaining :
    let left : Heap := ⟨.empty, .empty, ⟨#[⟨0, some ⟨#[.array ⟨0, 0⟩], []⟩⟩], [], 1⟩⟩
    let right : Heap := ⟨.empty, .empty,
      ⟨#[⟨0, some ⟨#[.nil], []⟩⟩, ⟨0, some ⟨#[.array ⟨1, 0⟩], []⟩⟩], [], 2⟩⟩
    left.display (.array ⟨0, 0⟩) = .ok "[[...]]" ∧
      right.display (.array ⟨1, 0⟩) = .ok "[[...]]" := by
  intro left right
  have hleft : left.display (.array ⟨0, 0⟩) = .ok "[[...]]" := by
    have hsteps := (display_ends left (.array ⟨0, 0⟩)).1 (fun _ _ => .ok "") 2 (by decide)
    rw [← hsteps]
    rfl
  let m : Matching := ⟨fun _ _ => False, fun a b => a = ⟨0, 0⟩ ∧ b = ⟨1, 0⟩⟩
  have hm : Matched m left right := by
    constructor
    · exact fun h _ => h.elim
    · rintro _ _ _ _ ⟨rfl, rfl⟩ ⟨rfl, rfl⟩
      exact ⟨fun _ => rfl, fun _ => rfl⟩
    · exact fun h => h.elim
    · rintro _ _ ⟨rfl, rfl⟩
      exact .some (.cons (.array ⟨rfl, rfl⟩) .nil)
  have hsame := (display_ends left (.array ⟨0, 0⟩)).2.2.2 m right (.array ⟨1, 0⟩) hm
    (.array ⟨rfl, rfl⟩)
  rw [hleft] at hsame
  refine ⟨hleft, ?_⟩
  cases hright : right.display (.array ⟨1, 0⟩) with
  | error e =>
    rw [hright] at hsame
    cases hsame
  | ok text =>
    rw [hright] at hsame
    cases hsame
    rfl

end Heap

end Tao
