/-
  Conditions on every node of a tree.

  A SHAPE is a condition on statements and one on expressions.  A tree has it everywhere if all
  statements and expressions in it meet them, at any depth, also inside of functions.
-/
import Tao.Tree

namespace Tao

/-- Conditions on the nodes of a tree. -/
structure Shape where
  statement : Statement → Prop
  expression : Expression → Prop

/-- No conditions. -/
def Shape.any : Shape := ⟨fun _ => True, fun _ => True⟩

mutual

/-- Does an expression have a shape everywhere? -/
def Expression.Everywhere (shape : Shape) : Expression → Prop
  | .literal value => shape.expression (.literal value)
  | .name text => shape.expression (.name text)
  | .unary operator operand =>
    shape.expression (.unary operator operand) ∧ operand.Everywhere shape
  | .step operator before target =>
    shape.expression (.step operator before target) ∧ target.Everywhere shape
  | .binary operator left right =>
    shape.expression (.binary operator left right) ∧ left.Everywhere shape ∧ right.Everywhere shape
  | .conditional condition thenValue elseValue =>
    shape.expression (.conditional condition thenValue elseValue) ∧ condition.Everywhere shape ∧
      thenValue.Everywhere shape ∧ elseValue.Everywhere shape
  | .construct maker arguments =>
    shape.expression (.construct maker arguments) ∧ maker.Everywhere shape ∧
      Expression.AllEverywhere shape arguments
  | .assign target value =>
    shape.expression (.assign target value) ∧ target.Everywhere shape ∧ value.Everywhere shape
  | .function code => code.Everywhere shape
  | .index target key =>
    shape.expression (.index target key) ∧ target.Everywhere shape ∧ key.Everywhere shape
  | .call callee arguments =>
    shape.expression (.call callee arguments) ∧ callee.Everywhere shape ∧
      Expression.AllEverywhere shape arguments
  | .object entries => shape.expression (.object entries) ∧ Entry.AllEverywhere shape entries
  | .array elements =>
    shape.expression (.array elements) ∧ Expression.AllEverywhere shape elements

/-- Do expressions have a shape everywhere? -/
def Expression.AllEverywhere (shape : Shape) : List Expression → Prop
  | [] => True
  | e :: rest => e.Everywhere shape ∧ Expression.AllEverywhere shape rest

/-- Does a function have a shape everywhere? -/
def FunctionCode.Everywhere (shape : Shape) : FunctionCode → Prop
  | .mk name params body =>
    shape.expression (.function (.mk name params body)) ∧ Statement.AllEverywhere shape body

/-- Does the value of an entry of an object have a shape everywhere? -/
def Entry.Everywhere (shape : Shape) : Entry → Prop
  | .mk _ value => value.Everywhere shape

/-- Do the values of the entries of an object have a shape everywhere? -/
def Entry.AllEverywhere (shape : Shape) : List Entry → Prop
  | [] => True
  | entry :: rest => entry.Everywhere shape ∧ Entry.AllEverywhere shape rest

/-- Does a statement have a shape everywhere? -/
def Statement.Everywhere (shape : Shape) : Statement → Prop
  | .empty => shape.statement .empty
  | .define name initializer =>
    shape.statement (.define name initializer) ∧ Expression.Everywhere? shape initializer
  | .function code => shape.statement (.function code) ∧ code.Everywhere shape
  | .giveBack value => shape.statement (.giveBack value) ∧ Expression.Everywhere? shape value
  | .block body => shape.statement (.block body) ∧ Statement.AllEverywhere shape body
  | .expression value => shape.statement (.expression value) ∧ value.Everywhere shape
  | .loop init test increment body =>
    shape.statement (.loop init test increment body) ∧ Statement.Everywhere? shape init ∧
      Expression.Everywhere? shape test ∧ Expression.Everywhere? shape increment ∧
      Statement.AllEverywhere shape body
  | .leave => shape.statement .leave
  | .branch condition thenBody otherwise =>
    shape.statement (.branch condition thenBody otherwise) ∧ condition.Everywhere shape ∧
      Statement.AllEverywhere shape thenBody ∧ Statement.Everywhere? shape otherwise
  | .choose subject groups otherwise =>
    shape.statement (.choose subject groups otherwise) ∧ subject.Everywhere shape ∧
      CaseGroup.AllEverywhere shape groups ∧ Statement.AllEverywhere? shape otherwise

/-- Do statements have a shape everywhere? -/
def Statement.AllEverywhere (shape : Shape) : List Statement → Prop
  | [] => True
  | s :: rest => s.Everywhere shape ∧ Statement.AllEverywhere shape rest

/-- Do the labels and the body of a group have a shape everywhere? -/
def CaseGroup.Everywhere (shape : Shape) : CaseGroup → Prop
  | .mk labels body =>
    Expression.AllEverywhere shape labels ∧ Statement.AllEverywhere shape body

/-- Do the labels and bodies of groups have a shape everywhere? -/
def CaseGroup.AllEverywhere (shape : Shape) : List CaseGroup → Prop
  | [] => True
  | group :: rest => group.Everywhere shape ∧ CaseGroup.AllEverywhere shape rest

/-- Does an expression, if there is one, have a shape everywhere? -/
def Expression.Everywhere? (shape : Shape) : Option Expression → Prop
  | none => True
  | some e => e.Everywhere shape

/-- Does a statement, if there is one, have a shape everywhere? -/
def Statement.Everywhere? (shape : Shape) : Option Statement → Prop
  | none => True
  | some s => s.Everywhere shape

/-- Do statements, if there are any, have a shape everywhere? -/
def Statement.AllEverywhere? (shape : Shape) : Option (List Statement) → Prop
  | none => True
  | some body => Statement.AllEverywhere shape body

end

/-- Several parts have a shape if each of them does. -/
theorem Expression.allEverywhere_iff {shape : Shape} {es : List Expression} :
    Expression.AllEverywhere shape es ↔ ∀ e ∈ es, e.Everywhere shape := by
  induction es with
  | nil => exact ⟨fun _ _ h => absurd h List.not_mem_nil, fun _ => trivial⟩
  | cons e rest ih => exact Iff.trans (and_congr_right' ih) List.forall_mem_cons.symm

theorem Statement.allEverywhere_iff {shape : Shape} {body : List Statement} :
    Statement.AllEverywhere shape body ↔ ∀ s ∈ body, s.Everywhere shape := by
  induction body with
  | nil => exact ⟨fun _ _ h => absurd h List.not_mem_nil, fun _ => trivial⟩
  | cons s rest ih => exact Iff.trans (and_congr_right' ih) List.forall_mem_cons.symm

theorem Entry.allEverywhere_iff {shape : Shape} {entries : List Entry} :
    Entry.AllEverywhere shape entries ↔ ∀ entry ∈ entries, entry.Everywhere shape := by
  induction entries with
  | nil => exact ⟨fun _ _ h => absurd h List.not_mem_nil, fun _ => trivial⟩
  | cons entry rest ih => exact Iff.trans (and_congr_right' ih) List.forall_mem_cons.symm

theorem CaseGroup.allEverywhere_iff {shape : Shape} {groups : List CaseGroup} :
    CaseGroup.AllEverywhere shape groups ↔ ∀ group ∈ groups, group.Everywhere shape := by
  induction groups with
  | nil => exact ⟨fun _ _ h => absurd h List.not_mem_nil, fun _ => trivial⟩
  | cons group rest ih => exact Iff.trans (and_congr_right' ih) List.forall_mem_cons.symm

/-- A function has it if its body does. -/
theorem FunctionCode.everywhere_iff {shape : Shape} {code : FunctionCode} :
    code.Everywhere shape ↔
      shape.expression (.function code) ∧ Statement.AllEverywhere shape code.body := by
  cases code
  exact Iff.rfl

/-! ## Without conditions -/

mutual

/-- Every tree meets no conditions.  Mutual recursion on the tree. -/
theorem Expression.everywhere_any : ∀ e : Expression, e.Everywhere .any
  | .literal _ | .name _ => trivial
  | .unary _ operand => ⟨trivial, operand.everywhere_any⟩
  | .step _ _ target => ⟨trivial, target.everywhere_any⟩
  | .binary _ left right => ⟨trivial, left.everywhere_any, right.everywhere_any⟩
  | .conditional condition thenValue elseValue =>
    ⟨trivial, condition.everywhere_any, thenValue.everywhere_any, elseValue.everywhere_any⟩
  | .construct maker arguments =>
    ⟨trivial, maker.everywhere_any, Expression.allEverywhere_any arguments⟩
  | .assign target value => ⟨trivial, target.everywhere_any, value.everywhere_any⟩
  | .function code => code.everywhere_any
  | .index target key => ⟨trivial, target.everywhere_any, key.everywhere_any⟩
  | .call callee arguments =>
    ⟨trivial, callee.everywhere_any, Expression.allEverywhere_any arguments⟩
  | .object entries => ⟨trivial, Entry.allEverywhere_any entries⟩
  | .array elements => ⟨trivial, Expression.allEverywhere_any elements⟩

theorem Expression.allEverywhere_any : ∀ es : List Expression, Expression.AllEverywhere .any es
  | [] => trivial
  | e :: rest => ⟨e.everywhere_any, Expression.allEverywhere_any rest⟩

/-- Every function has the shape without conditions. -/
theorem FunctionCode.everywhere_any : ∀ code : FunctionCode, code.Everywhere .any
  | .mk _ _ body => ⟨trivial, Statement.allEverywhere_any body⟩

theorem Entry.allEverywhere_any : ∀ entries : List Entry, Entry.AllEverywhere .any entries
  | [] => trivial
  | .mk _ value :: rest => ⟨value.everywhere_any, Entry.allEverywhere_any rest⟩

theorem Statement.everywhere_any : ∀ s : Statement, s.Everywhere .any
  | .empty | .leave => trivial
  | .define _ initializer => ⟨trivial, Expression.everywhere?_any initializer⟩
  | .function code => ⟨trivial, code.everywhere_any⟩
  | .giveBack value => ⟨trivial, Expression.everywhere?_any value⟩
  | .block body => ⟨trivial, Statement.allEverywhere_any body⟩
  | .expression value => ⟨trivial, value.everywhere_any⟩
  | .loop init test increment body =>
    ⟨trivial, Statement.everywhere?_any init, Expression.everywhere?_any test,
      Expression.everywhere?_any increment, Statement.allEverywhere_any body⟩
  | .branch condition thenBody otherwise =>
    ⟨trivial, condition.everywhere_any, Statement.allEverywhere_any thenBody,
      Statement.everywhere?_any otherwise⟩
  | .choose subject groups otherwise =>
    ⟨trivial, subject.everywhere_any, CaseGroup.allEverywhere_any groups,
      Statement.allEverywhere?_any otherwise⟩

/-- All statements have the shape without conditions. -/
theorem Statement.allEverywhere_any :
    ∀ statements : List Statement, Statement.AllEverywhere .any statements
  | [] => trivial
  | s :: rest => ⟨s.everywhere_any, Statement.allEverywhere_any rest⟩

theorem CaseGroup.allEverywhere_any :
    ∀ groups : List CaseGroup, CaseGroup.AllEverywhere .any groups
  | [] => trivial
  | .mk labels body :: rest =>
    ⟨⟨Expression.allEverywhere_any labels, Statement.allEverywhere_any body⟩,
      CaseGroup.allEverywhere_any rest⟩

theorem Expression.everywhere?_any : ∀ e : Option Expression, Expression.Everywhere? .any e
  | none => trivial
  | some e => e.everywhere_any

theorem Statement.everywhere?_any : ∀ s : Option Statement, Statement.Everywhere? .any s
  | none => trivial
  | some s => s.everywhere_any

theorem Statement.allEverywhere?_any :
    ∀ body : Option (List Statement), Statement.AllEverywhere? .any body
  | none => trivial
  | some body => Statement.allEverywhere_any body

end

/-! ## Two conditions together -/

/-- At every node the conditions of two shapes give those of a third one. -/
structure Shape.Joins (S T U : Shape) : Prop where
  statement : ∀ s, S.statement s → T.statement s → U.statement s
  expression : ∀ e, S.expression e → T.expression e → U.expression e

section Joins

variable {S T U : Shape}

mutual

/-- Where two shapes join, so do the conditions on every node.  Mutual recursion on the tree. -/
theorem Expression.everywhere_join (h : S.Joins T U) :
    ∀ e : Expression, e.Everywhere S → e.Everywhere T → e.Everywhere U
  | .literal _, hs, ht | .name _, hs, ht => h.expression _ hs ht
  | .unary _ operand, hs, ht =>
    ⟨h.expression _ hs.1 ht.1, operand.everywhere_join h hs.2 ht.2⟩
  | .step _ _ target, hs, ht =>
    ⟨h.expression _ hs.1 ht.1, target.everywhere_join h hs.2 ht.2⟩
  | .binary _ left right, hs, ht =>
    ⟨h.expression _ hs.1 ht.1, left.everywhere_join h hs.2.1 ht.2.1,
      right.everywhere_join h hs.2.2 ht.2.2⟩
  | .conditional condition thenValue elseValue, hs, ht =>
    ⟨h.expression _ hs.1 ht.1, condition.everywhere_join h hs.2.1 ht.2.1,
      thenValue.everywhere_join h hs.2.2.1 ht.2.2.1, elseValue.everywhere_join h hs.2.2.2 ht.2.2.2⟩
  | .construct maker arguments, hs, ht =>
    ⟨h.expression _ hs.1 ht.1, maker.everywhere_join h hs.2.1 ht.2.1,
      Expression.allEverywhere_join h arguments hs.2.2 ht.2.2⟩
  | .assign target value, hs, ht =>
    ⟨h.expression _ hs.1 ht.1, target.everywhere_join h hs.2.1 ht.2.1,
      value.everywhere_join h hs.2.2 ht.2.2⟩
  | .function code, hs, ht => code.everywhere_join h hs ht
  | .index target key, hs, ht =>
    ⟨h.expression _ hs.1 ht.1, target.everywhere_join h hs.2.1 ht.2.1,
      key.everywhere_join h hs.2.2 ht.2.2⟩
  | .call callee arguments, hs, ht =>
    ⟨h.expression _ hs.1 ht.1, callee.everywhere_join h hs.2.1 ht.2.1,
      Expression.allEverywhere_join h arguments hs.2.2 ht.2.2⟩
  | .object entries, hs, ht =>
    ⟨h.expression _ hs.1 ht.1, Entry.allEverywhere_join h entries hs.2 ht.2⟩
  | .array elements, hs, ht =>
    ⟨h.expression _ hs.1 ht.1, Expression.allEverywhere_join h elements hs.2 ht.2⟩

theorem Expression.allEverywhere_join (h : S.Joins T U) :
    ∀ es : List Expression, Expression.AllEverywhere S es → Expression.AllEverywhere T es →
      Expression.AllEverywhere U es
  | [], _, _ => trivial
  | e :: rest, hs, ht =>
    ⟨e.everywhere_join h hs.1 ht.1, Expression.allEverywhere_join h rest hs.2 ht.2⟩

theorem FunctionCode.everywhere_join (h : S.Joins T U) :
    ∀ code : FunctionCode, code.Everywhere S → code.Everywhere T → code.Everywhere U
  | .mk _ _ body, hs, ht =>
    ⟨h.expression _ hs.1 ht.1, Statement.allEverywhere_join h body hs.2 ht.2⟩

theorem Entry.allEverywhere_join (h : S.Joins T U) :
    ∀ entries : List Entry, Entry.AllEverywhere S entries → Entry.AllEverywhere T entries →
      Entry.AllEverywhere U entries
  | [], _, _ => trivial
  | .mk _ value :: rest, hs, ht =>
    ⟨value.everywhere_join h hs.1 ht.1, Entry.allEverywhere_join h rest hs.2 ht.2⟩

theorem Statement.everywhere_join (h : S.Joins T U) :
    ∀ s : Statement, s.Everywhere S → s.Everywhere T → s.Everywhere U
  | .empty, hs, ht | .leave, hs, ht => h.statement _ hs ht
  | .define _ initializer, hs, ht =>
    ⟨h.statement _ hs.1 ht.1, Expression.everywhere?_join h initializer hs.2 ht.2⟩
  | .function code, hs, ht => ⟨h.statement _ hs.1 ht.1, code.everywhere_join h hs.2 ht.2⟩
  | .giveBack value, hs, ht =>
    ⟨h.statement _ hs.1 ht.1, Expression.everywhere?_join h value hs.2 ht.2⟩
  | .block body, hs, ht =>
    ⟨h.statement _ hs.1 ht.1, Statement.allEverywhere_join h body hs.2 ht.2⟩
  | .expression value, hs, ht =>
    ⟨h.statement _ hs.1 ht.1, value.everywhere_join h hs.2 ht.2⟩
  | .loop init test increment body, hs, ht =>
    ⟨h.statement _ hs.1 ht.1, Statement.everywhere?_join h init hs.2.1 ht.2.1,
      Expression.everywhere?_join h test hs.2.2.1 ht.2.2.1,
      Expression.everywhere?_join h increment hs.2.2.2.1 ht.2.2.2.1,
      Statement.allEverywhere_join h body hs.2.2.2.2 ht.2.2.2.2⟩
  | .branch condition thenBody otherwise, hs, ht =>
    ⟨h.statement _ hs.1 ht.1, condition.everywhere_join h hs.2.1 ht.2.1,
      Statement.allEverywhere_join h thenBody hs.2.2.1 ht.2.2.1,
      Statement.everywhere?_join h otherwise hs.2.2.2 ht.2.2.2⟩
  | .choose subject groups otherwise, hs, ht =>
    ⟨h.statement _ hs.1 ht.1, subject.everywhere_join h hs.2.1 ht.2.1,
      CaseGroup.allEverywhere_join h groups hs.2.2.1 ht.2.2.1,
      Statement.allEverywhere?_join h otherwise hs.2.2.2 ht.2.2.2⟩

/-- Statements that have two shapes everywhere have the third one everywhere. -/
theorem Statement.allEverywhere_join (h : S.Joins T U) :
    ∀ body : List Statement, Statement.AllEverywhere S body → Statement.AllEverywhere T body →
      Statement.AllEverywhere U body
  | [], _, _ => trivial
  | s :: rest, hs, ht =>
    ⟨s.everywhere_join h hs.1 ht.1, Statement.allEverywhere_join h rest hs.2 ht.2⟩

theorem CaseGroup.allEverywhere_join (h : S.Joins T U) :
    ∀ groups : List CaseGroup, CaseGroup.AllEverywhere S groups →
      CaseGroup.AllEverywhere T groups → CaseGroup.AllEverywhere U groups
  | [], _, _ => trivial
  | .mk labels body :: rest, hs, ht =>
    ⟨⟨Expression.allEverywhere_join h labels hs.1.1 ht.1.1,
        Statement.allEverywhere_join h body hs.1.2 ht.1.2⟩,
      CaseGroup.allEverywhere_join h rest hs.2 ht.2⟩

theorem Expression.everywhere?_join (h : S.Joins T U) :
    ∀ e : Option Expression, Expression.Everywhere? S e → Expression.Everywhere? T e →
      Expression.Everywhere? U e
  | none, _, _ => trivial
  | some e, hs, ht => e.everywhere_join h hs ht

theorem Statement.everywhere?_join (h : S.Joins T U) :
    ∀ s : Option Statement, Statement.Everywhere? S s → Statement.Everywhere? T s →
      Statement.Everywhere? U s
  | none, _, _ => trivial
  | some s, hs, ht => s.everywhere_join h hs ht

theorem Statement.allEverywhere?_join (h : S.Joins T U) :
    ∀ body : Option (List Statement), Statement.AllEverywhere? S body →
      Statement.AllEverywhere? T body → Statement.AllEverywhere? U body
  | none, _, _ => trivial
  | some body, hs, ht => Statement.allEverywhere_join h body hs ht

end

end Joins

end Tao
