/-
  How a switch is read.

  Between the braces of a switch stand its ARMS: groups, and at most one default among them, at any
  place.  The tree keeps the groups in their order and the default apart from them, so that where it
  was written is forgotten.  This is shown of any parse of a switch that succeeds, by induction on
  the turns of the loop that reads the arms.
-/
import Tao.Parser.Statement
import Tao.Proofs.Parser.Gives

namespace Tao

/-! ## Arms -/

/-- What stands between the braces of a switch. -/
inductive Arm where
  | group (labels : List Expression) (body : List Statement)
  | default (body : List Statement)

/-- The group that an arm is. -/
def Arm.group? : Arm → Option CaseGroup
  | .group labels body => some (.mk labels body)
  | .default _ => none

/-- The default body that an arm is. -/
def Arm.default? : Arm → Option (List Statement)
  | .group .. => none
  | .default body => some body

/-- The switch that arms make. -/
def Statement.ofArms (subject : Expression) (arms : List Arm) : Statement :=
  .choose subject (arms.filterMap Arm.group?) (arms.findSome? Arm.default?)

namespace Grammar

open Tao.Parser

variable {g : Grammar} {p q : Parser}

/-- An arm is read from one state to another. -/
inductive ReadsArm (g : Grammar) : Arm → Parser → Parser → Prop where
  | group {labels : List Expression} {body : List Statement} {token colon : Token}
    {p₀ p₁ p₂ p₃ p₄ : Parser} (taken : take p₀ = .ok token p₁) (kind : token.kind = .kwCase)
    (readLabels : g.groupLabels p₁ = .ok labels p₂) (readColon : expect .colon p₂ = .ok colon p₃)
    (readBody : g.groupBody p₃ = .ok body p₄) : ReadsArm g (.group labels body) p₀ p₄
  | default {body : List Statement} {token colon : Token} {p₀ p₁ p₂ p₃ : Parser}
    (taken : take p₀ = .ok token p₁) (kind : token.kind = .kwDefault)
    (readColon : expect .colon p₁ = .ok colon p₂) (readBody : g.groupBody p₂ = .ok body p₃) :
    ReadsArm g (.default body) p₀ p₃

/-- Arms are read one after another. -/
inductive ReadsArms (g : Grammar) : List Arm → Parser → Parser → Prop where
  | none (p : Parser) : ReadsArms g [] p p
  | more {arm : Arm} {arms : List Arm} {p₀ p₁ p₂ : Parser} (first : g.ReadsArm arm p₀ p₁)
    (rest : g.ReadsArms arms p₁ p₂) : ReadsArms g (arm :: arms) p₀ p₂

/-- The rest of a switch is read: a subject, and arms in braces, in which `break` may stand. -/
inductive ReadsSwitch (g : Grammar) (subject : Expression) (arms : List Arm) :
    Parser → Parser → Prop where
  | intro {opening closing : Token} {p₀ p₁ p₂ p₃ p₄ : Parser}
    (readSubject : g.expression p₀ = .ok subject p₁)
    (readOpening : expect .leftBrace p₁ = .ok opening p₂)
    (readArms : g.ReadsArms arms { p₂ with breakable := p₂.breakable + 1 } p₃)
    (taken : take p₃ = .ok closing p₄) (kind : closing.kind = .rightBrace) :
    ReadsSwitch g subject arms p₀ { p₄ with breakable := p₄.breakable - 1 }

/-! ## Reading them -/

/-- What has been read of a switch: groups, last one first, and the default. -/
abbrev ArmsRead := List CaseGroup × Option (List Statement)

/-- One turn of reading arms. -/
def choiceTurn (g : Grammar) (read : ArmsRead) : Parse (Turn ArmsRead ArmsRead) := do
  let (groups, otherwise) := read
  let token ← take
  match token.kind with
  | .rightBrace => return .done (groups.reverse, otherwise)
  | .kwCase =>
    let labels ← g.groupLabels
    let _ ← expect .colon
    return .again (.mk labels (← g.groupBody) :: groups, otherwise)
  | .kwDefault =>
    if otherwise.isSome then
      fail ⟨.multipleDefaults, token.position⟩
    let _ ← expect .colon
    return .again (groups, some (← g.groupBody))
  | _ => fail (.unexpected token (some .kwCase))

/-- Reading a switch, with its turns under their name. -/
theorem choice_eq (g : Grammar) : g.choice = do
    let subject ← g.expression
    let _ ← expect .leftBrace
    modify fun parser => { parser with breakable := parser.breakable + 1 }
    let read ← iterate g.bound g.choiceTurn ([], none)
    modify fun parser => { parser with breakable := parser.breakable - 1 }
    return .choose subject read.1 read.2 := rfl

/-- A turn ends at the closing brace or reads an arm. -/
theorem choiceTurn_ok {groups : List CaseGroup} {otherwise : Option (List Statement)}
    {turn : Turn ArmsRead ArmsRead} (h : g.choiceTurn (groups, otherwise) p = .ok turn q) :
    (∃ closing, take p = .ok closing q ∧ closing.kind = .rightBrace ∧
      turn = .done (groups.reverse, otherwise)) ∨
    (∃ labels body, g.ReadsArm (.group labels body) p q ∧
      turn = .again (.mk labels body :: groups, otherwise)) ∨
    ∃ body, g.ReadsArm (.default body) p q ∧ otherwise = none ∧
      turn = .again (groups, some body) := by
  obtain ⟨token, p₁, htaken, h⟩ := EStateM.exists_of_bind_ok h
  cases hkind : token.kind with
  | rightBrace =>
    rw [hkind] at h
    cases h
    exact .inl ⟨token, htaken, hkind, rfl⟩
  | kwCase =>
    rw [hkind] at h
    obtain ⟨labels, p₂, hlabels, h⟩ := EStateM.exists_of_bind_ok h
    obtain ⟨colon, p₃, hcolon, h⟩ := EStateM.exists_of_bind_ok h
    obtain ⟨body, p₄, hbody, h⟩ := EStateM.exists_of_bind_ok h
    cases h
    exact .inr (.inl ⟨labels, body, .group htaken hkind hlabels hcolon hbody, rfl⟩)
  | kwDefault =>
    rw [hkind] at h
    cases otherwise with
    | some body => cases h
    | none =>
      obtain ⟨colon, p₂, hcolon, h⟩ := EStateM.exists_of_bind_ok h
      obtain ⟨body, p₃, hbody, h⟩ := EStateM.exists_of_bind_ok h
      cases h
      exact .inr (.inr ⟨body, .default htaken hkind hcolon hbody, rfl, rfl⟩)
  | _ =>
    rw [hkind] at h
    cases h

/-- Induction on the turns that are left. -/
theorem iterate_choiceTurn_ok {fuel : Nat} {groups : List CaseGroup}
    {otherwise : Option (List Statement)} {read : ArmsRead}
    (h : iterate fuel g.choiceTurn (groups, otherwise) p = .ok read q) :
    ∃ arms before closing, g.ReadsArms arms p before ∧ take before = .ok closing q ∧
      closing.kind = .rightBrace ∧
      read = (groups.reverse ++ arms.filterMap Arm.group?,
        otherwise.or (arms.findSome? Arm.default?)) ∧
      (otherwise.toList ++ arms.filterMap Arm.default?).length ≤ 1 := by
  induction fuel generalizing groups otherwise p with
  | zero => cases h
  | succ fuel ih =>
    obtain ⟨turn, between, hturn, h⟩ := EStateM.exists_of_bind_ok h
    rcases choiceTurn_ok hturn with ⟨closing, htaken, hkind, rfl⟩ | ⟨labels, body, harm, rfl⟩ |
      ⟨body, harm, rfl, rfl⟩
    · cases h
      refine ⟨[], p, closing, .none p, htaken, hkind, ?_, ?_⟩
      · rw [List.filterMap_nil, List.append_nil, List.findSome?_nil, Option.or_none]
      · cases otherwise <;> simp
    · obtain ⟨arms, before, closing, harms, hclosing, hkind, rfl, hone⟩ := ih h
      refine ⟨.group labels body :: arms, before, closing, .more harm harms, hclosing, hkind, ?_,
        hone⟩
      rw [List.reverse_cons, List.append_assoc]
      rfl
    · obtain ⟨arms, before, closing, harms, hclosing, hkind, rfl, hone⟩ := ih h
      exact ⟨.default body :: arms, before, closing, .more harm harms, hclosing, hkind, rfl, hone⟩

/-- A switch that is read has arms, at most one of them a default; its tree is the one that they
    make. -/
theorem choice_ok {statement : Statement} (h : g.choice p = .ok statement q) :
    ∃ subject arms, g.ReadsSwitch subject arms p q ∧
      (arms.filterMap Arm.default?).length ≤ 1 ∧ statement = .ofArms subject arms := by
  rw [choice_eq] at h
  obtain ⟨subject, p₁, hsubject, h⟩ := EStateM.exists_of_bind_ok h
  obtain ⟨opening, p₂, hopening, h⟩ := EStateM.exists_of_bind_ok h
  obtain ⟨_, _, hraise, h⟩ := EStateM.exists_of_bind_ok h
  cases hraise
  obtain ⟨read, p₄, hread, h⟩ := EStateM.exists_of_bind_ok h
  obtain ⟨arms, p₃, closing, harms, hclosing, hkind, rfl, hone⟩ := iterate_choiceTurn_ok hread
  cases h
  exact ⟨subject, arms, .intro hsubject hopening harms hclosing hkind, hone, rfl⟩

end Grammar

end Tao
