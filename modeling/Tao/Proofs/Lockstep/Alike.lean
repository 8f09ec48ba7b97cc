/-
  Values that differ in their handles only.

  A PAIRING says which handles of one heap correspond to which of another.  Two values are ALIKE
  under it if they are the same up to corresponding handles; functions must moreover have the same
  stamp and the same code, and the code must have a given shape everywhere.  Properties, bindings
  and cells are alike if their values are, one by one.

  Everything that is computed from cells without following a handle respects this: a lookup in alike
  properties finds alike values, and changing alike cells in the same way leaves them alike.
-/
import Mathlib.Data.List.Forall2
import Tao.Heap.Member
import Tao.Proofs.Tree

namespace Tao

/-! ## Lists -/

section Lists

variable {α β : Type} {r : α → β → Prop} {as : List α} {bs : List β}

/-- Related lists have related elements at every place, or none. -/
theorem rel_getElem? (h : List.Forall₂ r as bs) (i : Nat) : Option.Rel r as[i]? bs[i]? := by
  induction h generalizing i with
  | nil => exact .none
  | cons hab _ ih =>
    cases i with
    | zero => exact .some hab
    | succ i => exact ih i

/-- Replacing elements at the same place by related ones. -/
theorem rel_set (h : List.Forall₂ r as bs) {a : α} {b : β} (hab : r a b) (i : Nat) :
    List.Forall₂ r (as.set i a) (bs.set i b) := by
  induction h generalizing i with
  | nil => exact .nil
  | cons hhead htail ih =>
    cases i with
    | zero => exact .cons hab htail
    | succ i => exact .cons hhead (ih i)

/-- Taking the last elements off leaves related lists, as they are equally long. -/
theorem rel_dropLast (h : List.Forall₂ r as bs) :
    List.Forall₂ r as.dropLast bs.dropLast := by
  rw [List.dropLast_eq_take, List.dropLast_eq_take, h.length_eq]
  exact List.forall₂_take _ h

/-- Repeating related elements equally often. -/
theorem rel_replicate {a : α} {b : β} (hab : r a b) (n : Nat) :
    List.Forall₂ r (List.replicate n a) (List.replicate n b) := by
  induction n with
  | zero => exact .nil
  | succ n ih => exact .cons hab ih

end Lists

/-! ## Values -/

/-- Which handles of one heap correspond to which of another. -/
structure Pairing where
  scope : ScopeId → ScopeId → Prop
  object : ObjectId → ObjectId → Prop
  array : ArrayId → ArrayId → Prop

/-- Whatever one pairing pairs, another one does. -/
structure Pairing.Within (p q : Pairing) : Prop where
  scope : ∀ a b, p.scope a b → q.scope a b
  object : ∀ a b, p.object a b → q.object a b
  array : ∀ a b, p.array a b → q.array a b

/-- Every pairing is within itself. -/
theorem Pairing.Within.refl (p : Pairing) : p.Within p :=
  ⟨fun _ _ h => h, fun _ _ h => h, fun _ _ h => h⟩

/-- Are two values the same up to paired handles? -/
inductive Value.Alike (shape : Shape) (p : Pairing) : Value → Value → Prop where
  | nil : Alike shape p .nil .nil
  | boolean (value : Bool) : Alike shape p (.boolean value) (.boolean value)
  | number (value : Int64) : Alike shape p (.number value) (.number value)
  | string (value : String) : Alike shape p (.string value) (.string value)
  | object {a b : ObjectId} (paired : p.object a b) : Alike shape p (.object a) (.object b)
  | array {a b : ArrayId} (paired : p.array a b) : Alike shape p (.array a) (.array b)
  | function {stamp : Nat} {code : FunctionCode} {a b : ScopeId} (shaped : code.Everywhere shape)
    (paired : p.scope a b) :
    Alike shape p (.function ⟨stamp, code, a⟩) (.function ⟨stamp, code, b⟩)
  | print : Alike shape p (.builtin .print) (.builtin .print)
  | println : Alike shape p (.builtin .println) (.builtin .println)
  | len : Alike shape p (.builtin .len) (.builtin .len)
  | arrayMethod (stamp : Nat) (method : ArrayMethod) {a b : ArrayId} (paired : p.array a b) :
    Alike shape p (.builtin (.arrayMethod stamp method a)) (.builtin (.arrayMethod stamp method b))
  | stringMethod (stamp : Nat) (method : StringMethod) (receiver : String) :
    Alike shape p (.builtin (.stringMethod stamp method receiver))
      (.builtin (.stringMethod stamp method receiver))
  | maker (maker : Maker) : Alike shape p (.maker maker) (.maker maker)

variable {shape : Shape} {p q : Pairing}

namespace Value

variable {u v : Value}

/-- Values that are alike stay so when more handles are paired. -/
theorem Alike.mono (hpq : p.Within q) (h : Alike shape p u v) : Alike shape q u v := by
  cases h with
  | nil => exact .nil
  | boolean b => exact .boolean b
  | number n => exact .number n
  | string s => exact .string s
  | object h => exact .object (hpq.object _ _ h)
  | array h => exact .array (hpq.array _ _ h)
  | function hcode h => exact .function hcode (hpq.scope _ _ h)
  | print => exact .print
  | println => exact .println
  | len => exact .len
  | arrayMethod stamp method h => exact .arrayMethod stamp method (hpq.array _ _ h)
  | stringMethod stamp method receiver => exact .stringMethod stamp method receiver
  | maker m => exact .maker m

/-- Values that are alike have the same type, so whatever is decided by types is decided alike. -/
theorem Alike.type_eq (h : Alike shape p u v) : u.type = v.type := by
  cases h <;> rfl

/-- What a literal stands for has no handles. -/
theorem Alike.ofLiteral (value : Literal) : Alike shape p value.toValue value.toValue := by
  cases value with
  | nil => exact .nil
  | boolean b => exact .boolean b
  | number n => exact .number n
  | string s => exact .string s

/-- Members of strings are alike. -/
theorem Alike.ofMemberOfString (stamp : Nat) (receiver key : String) :
    Alike shape p (memberOfString stamp receiver key) (memberOfString stamp receiver key) := by
  unfold memberOfString
  cases StringMethod.ofName? key with
  | none => exact .nil
  | some method => exact .stringMethod stamp method receiver

end Value

/-! ## Properties and bindings -/

/-- Are values under names related, one by one?  This serves properties and bindings. -/
abbrev Named.Rel (r : Value → Value → Prop) (xs ys : List (String × Value)) : Prop :=
  List.Forall₂ (fun a b => a.1 = b.1 ∧ r a.2 b.2) xs ys

namespace Named

variable {r r' : Value → Value → Prop} {xs ys : List (String × Value)} {u v : Value}

theorem Rel.mono (hr : ∀ u v, r u v → r' u v) (h : Rel r xs ys) : Rel r' xs ys :=
  h.imp fun _ _ hab => ⟨hab.1, hr _ _ hab.2⟩

/-- A name is found in both lists, with related values, or in neither. -/
theorem Rel.lookup (h : Rel r xs ys) (name : String) :
    Option.Rel r (xs.lookup name) (ys.lookup name) := by
  induction h with
  | nil => exact .none
  | @cons a b _ _ hab _ ih =>
    obtain ⟨key, u⟩ := a
    obtain ⟨key', v⟩ := b
    obtain ⟨rfl, huv⟩ := hab
    simp only [List.lookup_cons]
    cases name == key with
    | true => exact .some huv
    | false => exact ih

/-- Setting a key in both lists. -/
theorem Rel.set (h : Rel r xs ys) (huv : r u v) (key : String) :
    Rel r (Props.set key u xs) (Props.set key v ys) := by
  induction h with
  | nil => exact .cons ⟨rfl, huv⟩ .nil
  | @cons a b xs ys hab hrest ih =>
    obtain ⟨k, u'⟩ := a
    obtain ⟨k', v'⟩ := b
    obtain ⟨rfl, hold⟩ := hab
    simp only [Props.set]
    split
    · exact .cons ⟨rfl, huv⟩ (.cons ⟨rfl, hold⟩ hrest)
    · split
      · exact .cons ⟨rfl, huv⟩ hrest
      · exact .cons ⟨rfl, hold⟩ ih

/-- Appending an entry to both lists. -/
theorem Rel.append_one (h : Rel r xs ys) (huv : r u v) (name : String) :
    Rel r (xs ++ [(name, u)]) (ys ++ [(name, v)]) :=
  List.rel_append h (.cons ⟨rfl, huv⟩ .nil)

/-- Binding a name anew in both lists. -/
theorem Rel.rebind (h : Rel r xs ys) (huv : r u v) (name : String) :
    Rel r (Scope.rebind name u xs) (Scope.rebind name v ys) := by
  induction h with
  | nil => exact .nil
  | @cons a b _ _ hab hrest ih =>
    obtain ⟨bound, u'⟩ := a
    obtain ⟨bound', v'⟩ := b
    obtain ⟨rfl, hold⟩ := hab
    simp only [Scope.rebind]
    split
    · exact .cons ⟨rfl, huv⟩ hrest
    · exact .cons ⟨rfl, hold⟩ ih

end Named

/-! ## Cells -/

/-- Are two scopes alike? -/
structure Scope.Alike (shape : Shape) (p : Pairing) (s t : Scope) : Prop where
  bindings : Named.Rel (Value.Alike shape p) s.bindings t.bindings
  parent : Option.Rel p.scope s.parent t.parent
  broke : s.broke = t.broke
  returned : Option.Rel (Value.Alike shape p) s.returned t.returned

/-- Are two objects alike? -/
def ObjectCell.Alike (shape : Shape) (p : Pairing) (c d : ObjectCell) : Prop :=
  Named.Rel (Value.Alike shape p) c.props d.props

/-- Are two arrays alike? -/
structure ArrayCell.Alike (shape : Shape) (p : Pairing) (c d : ArrayCell) : Prop where
  elements : List.Forall₂ (Value.Alike shape p) c.elements.toList d.elements.toList
  props : Named.Rel (Value.Alike shape p) c.props d.props

/-- Options that are related stay so under a wider relation. -/
theorem optionRel_mono {α β : Type} {r s : α → β → Prop} (hrs : ∀ a b, r a b → s a b)
    {x : Option α} {y : Option β} (h : Option.Rel r x y) : Option.Rel s x y := by
  cases h with
  | some h => exact .some (hrs _ _ h)
  | none => exact .none

/-- Options that are related give related values, if the defaults are related. -/
theorem optionRel_getD {α β : Type} {r : α → β → Prop} {x : Option α} {y : Option β}
    (h : Option.Rel r x y) {a : α} {b : β} (hab : r a b) : r (x.getD a) (y.getD b) := by
  cases h with
  | some h => exact h
  | none => exact hab

namespace Scope

variable {s t : Scope} {u v : Value}

/-- Scopes that are alike stay so when more handles are paired. -/
theorem Alike.mono (hpq : p.Within q) (h : Alike shape p s t) : Alike shape q s t :=
  ⟨h.bindings.mono fun _ _ huv => huv.mono hpq, optionRel_mono hpq.scope h.parent, h.broke,
    optionRel_mono (fun _ _ huv => huv.mono hpq) h.returned⟩

/-- Scopes that are alike bind the same names, to values that are alike. -/
theorem Alike.get? (h : Alike shape p s t) (name : String) :
    Option.Rel (Value.Alike shape p) (s.get? name) (t.get? name) :=
  h.bindings.lookup name

/-- Signals are up in both scopes or in neither. -/
theorem Alike.signalled_eq (h : Alike shape p s t) : s.signalled = t.signalled := by
  obtain ⟨bindings, parent, broke, returned⟩ := s
  obtain ⟨bindings', parent', broke', returned'⟩ := t
  have hbroke : broke = broke' := h.broke
  have hreturned : Option.Rel (Value.Alike shape p) returned returned' := h.returned
  subst hbroke
  cases hreturned <;> rfl

/-- New scopes inside of paired ones. -/
theorem alike_inside {a b : ScopeId} (hab : p.scope a b) :
    Alike shape p (.inside (some a)) (.inside (some b)) :=
  ⟨.nil, .some hab, rfl, .none⟩

end Scope

namespace ObjectCell

variable {c d : ObjectCell}

/-- The same of objects. -/
theorem Alike.mono (hpq : p.Within q) (h : Alike shape p c d) : Alike shape q c d :=
  Named.Rel.mono (fun _ _ huv => huv.mono hpq) h

/-- Under every key, objects that are alike have values that are alike, or none. -/
theorem Alike.get? (h : Alike shape p c d) (key : String) :
    Option.Rel (Value.Alike shape p) (c.props.get? key) (d.props.get? key) :=
  Named.Rel.lookup h key

/-- Objects that are alike have equally many properties. -/
theorem Alike.length_eq (h : Alike shape p c d) : c.props.length = d.props.length :=
  List.Forall₂.length_eq h

end ObjectCell

namespace ArrayCell

variable {c d : ArrayCell} {u v : Value}

/-- The same of arrays. -/
theorem Alike.mono (hpq : p.Within q) (h : Alike shape p c d) : Alike shape q c d :=
  ⟨h.elements.imp fun _ _ huv => huv.mono hpq, h.props.mono fun _ _ huv => huv.mono hpq⟩

/-- Arrays that are alike are equally long. -/
theorem Alike.size_eq (h : Alike shape p c d) : c.elements.size = d.elements.size := by
  rw [← Array.length_toList, ← Array.length_toList, h.elements.length_eq]

/-- An index has the same place in arrays that are alike, or fails with the same error. -/
theorem Alike.place_eq (h : Alike shape p c d) (index : Int64) :
    c.place index = d.place index := by
  unfold ArrayCell.place
  rw [h.size_eq]

/-- At every place there are elements that are alike, or none. -/
theorem Alike.getElem? (h : Alike shape p c d) (place : Nat) :
    Option.Rel (Value.Alike shape p) c.elements[place]? d.elements[place]? := by
  rw [← Array.getElem?_toList, ← Array.getElem?_toList]
  exact rel_getElem? h.elements place

/-- The same with nil beyond the end. -/
theorem Alike.getD (h : Alike shape p c d) (place : Nat) :
    Value.Alike shape p (c.elements.getD place .nil) (d.elements.getD place .nil) := by
  rw [Array.getD_eq_getD_getElem?, Array.getD_eq_getD_getElem?]
  exact optionRel_getD (h.getElem? place) .nil

/-- The last elements are alike, if there are any. -/
theorem Alike.back? (h : Alike shape p c d) :
    Option.Rel (Value.Alike shape p) c.elements.back? d.elements.back? := by
  rw [Array.back?_eq_getElem?, Array.back?_eq_getElem?, h.size_eq]
  exact h.getElem? _

/-- Replacing elements at the same place. -/
theorem Alike.setElement (h : Alike shape p c d) (huv : Value.Alike shape p u v) (place : Nat) :
    Alike shape p { c with elements := c.elements.setIfInBounds place u }
      { d with elements := d.elements.setIfInBounds place v } :=
  ⟨by simpa only [Array.toList_setIfInBounds] using rel_set h.elements huv place, h.props⟩

/-- Appending values that are alike. -/
theorem Alike.appendList (h : Alike shape p c d) {us vs : List Value}
    (huvs : List.Forall₂ (Value.Alike shape p) us vs) :
    Alike shape p { c with elements := c.elements.appendList us }
      { d with elements := d.elements.appendList vs } :=
  ⟨by simpa using List.rel_append h.elements huvs, h.props⟩

/-- Taking the last elements off. -/
theorem Alike.pop (h : Alike shape p c d) :
    Alike shape p { c with elements := c.elements.pop } { d with elements := d.elements.pop } :=
  ⟨by simpa only [Array.toList_pop] using rel_dropLast h.elements, h.props⟩

/-- Setting a property beside the elements. -/
theorem Alike.setProp (h : Alike shape p c d) (huv : Value.Alike shape p u v) (key : String) :
    Alike shape p { c with props := Props.set key u c.props }
      { d with props := Props.set key v d.props } :=
  ⟨h.elements, h.props.set huv key⟩

/-- New arrays of values that are alike. -/
theorem alike_ofElements {us vs : List Value} (h : List.Forall₂ (Value.Alike shape p) us vs) :
    Alike shape p (.ofElements us.toArray) (.ofElements vs.toArray) :=
  ⟨h, .nil⟩

/-- New arrays that repeat a value. -/
theorem alike_replicate (n : Nat) (huv : Value.Alike shape p u v) :
    Alike shape p (.ofElements (.replicate n u)) (.ofElements (.replicate n v)) :=
  ⟨by simpa only [ofElements, Array.toList_replicate] using rel_replicate huv n, .nil⟩

end ArrayCell

end Tao
