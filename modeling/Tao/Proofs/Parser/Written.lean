/-
  How trees are written.

  `Written phrase input output` says that `input` is a way to write `phrase`, followed by `output`.
  A PHRASE is a tree, or a part of the syntax that has no tree of its own.  Wherever an expression
  stands in another phrase it stands in parentheses.

  Most trees are written in one way: with every function after its keyword, every key of an object
  and of an index quoted, and three clauses in every loop.  Besides that there are SHORT FORMS, and
  any of them may be taken at any node:

    * `(t).k` for `(t)[("k")]`, and `k: (v)` for `"k": (v)`;
    * `(t) += (e)` for `(t) = ((t) + (e))`, and so on for every operator that has such an
      assignment;
    * `(a, b) => (e)` for a function without a name that only returns `e`, `(a, b) => { ... }` for
      one with any body, and `a => ...` for one with one parameter;
    * `new (t)` for `new (t)()`;
    * `for t { ... }` and `for { ... }` for loops that have no other clause, and clauses without
      parentheses around them;
    * a comma after the last argument, element, entry or parameter.

  What is written keeps the conditions under which it can be read: a `break` stands inside of a loop
  or a choice, parameters and keys differ, and outside of functions there are only definitions.
-/
import Tao.Cursor
import Tao.Proofs.Signals.Breaks

namespace Tao

/-! ## Names and operators -/

/-- A word that is no keyword. -/
structure IsName (text : String) : Prop where
  start : text.toList.head?.any isWordStart = true
  word : ∀ c ∈ text.toList, isWordChar c = true
  noKeyword : Kind.ofWord? text = none

instance (text : String) : Decidable (IsName text) :=
  decidable_of_iff (text.toList.head?.any isWordStart = true ∧
      text.toList.all isWordChar = true ∧ Kind.ofWord? text = none)
    ⟨fun ⟨hstart, hword, hnone⟩ => ⟨hstart, List.all_eq_true.1 hword, hnone⟩,
      fun h => ⟨h.start, List.all_eq_true.2 h.word, h.noKeyword⟩⟩

/-- The operators that stand before an operand. -/
def Kind.isPrefix : Kind → Bool
  | .not | .plus | .minus | .bitXor => true
  | _ => false

/-- The operators that step the value of a target. -/
def Kind.isStep : Kind → Bool
  | .increment | .decrement => true
  | _ => false

/-- The operators that stand between two operands. -/
def Kind.isBinary : Kind → Bool
  | .orOr | .andAnd | .bitAnd | .bitOr | .bitXor | .bitAndNot | .equalEqual | .bangEqual | .greater
  | .greaterEqual | .less | .lessEqual | .leftShift | .rightShift | .plus | .minus | .star | .slash
  | .percent | .starStar => true
  | _ => false

/-! ## Phrases -/

/-- What is written at a place of a script. -/
inductive Phrase where
  /-- An expression without parentheses around it. -/
  | bare (e : Expression)
  /-- An expression in parentheses. -/
  | enclosed (e : Expression)
  /-- Expressions up to and including a closing mark. -/
  | arguments (closing : Kind) (es : List Expression)
  /-- Entries of an object up to and including the closing brace. -/
  | entries (entries : List Entry)
  /-- Parameters up to and including the closing parenthesis. -/
  | params (names : List String)
  /-- A function after its keyword. -/
  | code (code : FunctionCode)
  /-- A lambda up to and including its arrow. -/
  | head (names : List String)
  /-- Statements up to and including a closing brace, `inside` of a loop or a choice or not. -/
  | block (inside : Bool) (body : List Statement)
  /-- A statement. -/
  | statement (inside : Bool) (s : Statement)
  /-- A definition after its keyword. -/
  | definition (s : Statement)
  /-- A conditional after its `if`. -/
  | conditional (inside : Bool) (condition : Expression) (thenBody : List Statement)
    (otherwise : Option Statement)
  /-- The first clause of a loop with its semicolon. -/
  | init (init : Option Statement)
  /-- Another clause of a loop. -/
  | clause (e : Option Expression)
  /-- Everything before the body of a loop. -/
  | header (init : Option Statement) (test increment : Option Expression)
  /-- The labels of a group up to and including the colon. -/
  | labels (es : List Expression)
  /-- The statements of a group up to where it ends. -/
  | groupBody (body : List Statement)
  /-- The groups of a choice up to and including the closing brace. -/
  | groups (groups : List CaseGroup) (otherwise : Option (List Statement))
  /-- The statements of a script up to and including the end of the text. -/
  | script (body : List Statement)

/-- Does a group of a choice end before this? -/
def Kind.endsGroup : Kind → Bool
  | .kwCase | .kwDefault | .rightBrace => true
  | _ => false

/-- The keys of the entries of an object. -/
def Entry.key : Entry → String
  | .mk key _ => key

/-- A key as it is written: quoted, or bare if it is a name. -/
inductive Lexeme.IsKey : Lexeme → String → Prop where
  | quoted {x} : IsKey (.string x) x
  | bare {x} : IsName x → IsKey (.name x) x

section

set_option autoImplicit true
set_option relaxedAutoImplicit true

/-- `input` is a way to write the phrase, followed by `output`. -/
inductive Written : Phrase → List Lexeme → List Lexeme → Prop where
  -- expressions
  | enclosed : Written (.bare e) i (.mark .rightParen :: o) →
      Written (.enclosed e) (.mark .leftParen :: i) o
  | nil : Written (.bare (.literal .nil)) (.mark .kwNil :: o) o
  | isTrue : Written (.bare (.literal (.boolean true))) (.mark .kwTrue :: o) o
  | isFalse : Written (.bare (.literal (.boolean false))) (.mark .kwFalse :: o) o
  | number (n : Int64) : 0 ≤ n →
      Written (.bare (.literal (.number n))) (.number n.toNatClampNeg :: o) o
  | string : Written (.bare (.literal (.string text))) (.string text :: o) o
  | name : IsName x → Written (.bare (.name x)) (.name x :: o) o
  | unary : operator.isPrefix = true → Written (.enclosed e) i o →
      Written (.bare (.unary operator e)) (.mark operator :: i) o
  | stepBefore : operator.isStep = true → Written (.enclosed e) i o →
      Written (.bare (.step operator true e)) (.mark operator :: i) o
  | stepAfter : operator.isStep = true → Written (.enclosed e) i (.mark operator :: o) →
      Written (.bare (.step operator false e)) i o
  | binary : operator.isBinary = true → Written (.enclosed left) i (.mark operator :: j) →
      Written (.enclosed right) j o → Written (.bare (.binary operator left right)) i o
  | conditional : Written (.enclosed e) i (.mark .question :: j) →
      Written (.enclosed left) j (.mark .colon :: k) → Written (.enclosed right) k o →
      Written (.bare (.conditional e left right)) i o
  | construct : Written (.enclosed e) i (.mark .leftParen :: j) →
      Written (.arguments .rightParen es) j o →
      Written (.bare (.construct e es)) (.mark .kwNew :: i) o
  | bareConstruct : Written (.enclosed e) i o →
      Written (.bare (.construct e [])) (.mark .kwNew :: i) o
  | assign : Written (.enclosed target) i (.mark .assign :: j) → Written (.enclosed value) j o →
      Written (.bare (.assign target value)) i o
  | operatorAssign {assignment : Kind} : assignment.assignOperator? = some operator →
      Written (.enclosed target) i (.mark assignment :: j) → Written (.enclosed value) j o →
      Written (.bare (.assign target (.binary operator target value))) i o
  | function : Written (.code code) i o →
      Written (.bare (.function code)) (.mark .kwFunction :: i) o
  | lambda : names.Nodup → Written (.head names) i j → Written (.enclosed e) j o →
      Written (.bare (.function (.mk none names [.giveBack (some e)]))) i o
  | lambdaBlock : names.Nodup → Written (.head names) i (.mark .leftBrace :: j) →
      Written (.block false body) j o → Written (.bare (.function (.mk none names body))) i o
  | index : Written (.enclosed target) i (.mark .leftBracket :: j) →
      Written (.enclosed value) j (.mark .rightBracket :: o) →
      Written (.bare (.index target value)) i o
  | member : IsName x → Written (.enclosed target) i (.mark .dot :: .name x :: o) →
      Written (.bare (.index target (.literal (.string x)))) i o
  | call : Written (.enclosed e) i (.mark .leftParen :: j) →
      Written (.arguments .rightParen es) j o → Written (.bare (.call e es)) i o
  | object : (entries.map Entry.key).Nodup → Written (.entries entries) i o →
      Written (.bare (.object entries)) (.mark .leftBrace :: i) o
  | array : Written (.arguments .rightBracket es) i o →
      Written (.bare (.array es)) (.mark .leftBracket :: i) o
  -- lists of expressions
  | noArguments : Written (.arguments closing []) (.mark closing :: o) o
  | lastArgument : Written (.enclosed e) i (.mark closing :: o) →
      Written (.arguments closing [e]) i o
  | argument : Written (.enclosed e) i (.mark .comma :: j) → Written (.arguments closing es) j o →
      Written (.arguments closing (e :: es)) i o
  | noEntries : Written (.entries []) (.mark .rightBrace :: o) o
  | lastEntry : l.IsKey x → Written (.enclosed e) i (.mark .rightBrace :: o) →
      Written (.entries [.mk x e]) (l :: .mark .colon :: i) o
  | entry : l.IsKey x → Written (.enclosed e) i (.mark .comma :: j) →
      Written (.entries entries) j o →
      Written (.entries (.mk x e :: entries)) (l :: .mark .colon :: i) o
  -- functions
  | noParams : Written (.params []) (.mark .rightParen :: o) o
  | lastParam : IsName x → Written (.params [x]) (.name x :: .mark .rightParen :: o) o
  | param : IsName x → Written (.params names) i o →
      Written (.params (x :: names)) (.name x :: .mark .comma :: i) o
  | named : IsName x → names.Nodup → Written (.params names) i (.mark .leftBrace :: j) →
      Written (.block false body) j o →
      Written (.code (.mk (some x) names body)) (.name x :: .mark .leftParen :: i) o
  | anonymous : names.Nodup → Written (.params names) i (.mark .leftBrace :: j) →
      Written (.block false body) j o →
      Written (.code (.mk none names body)) (.mark .leftParen :: i) o
  | bareHead : IsName x → Written (.head [x]) (.name x :: .mark .lambda :: o) o
  | head : Written (.params names) i (.mark .lambda :: o) →
      Written (.head names) (.mark .leftParen :: i) o
  -- statements
  | blockEnd : Written (.block inside []) (.mark .rightBrace :: o) o
  | blockStatement : Written (.statement inside s) i j → Written (.block inside rest) j o →
      Written (.block inside (s :: rest)) i o
  | empty : Written (.statement inside .empty) (.mark .semicolon :: o) o
  | define : Written (.definition s) i o → Written (.statement inside s) (.mark .kwLet :: i) o
  | undefined : IsName x →
      Written (.definition (.define x none)) (.name x :: .mark .semicolon :: o) o
  | defined : IsName x → Written (.enclosed e) i (.mark .semicolon :: o) →
      Written (.definition (.define x (some e))) (.name x :: .mark .assign :: i) o
  | functionStatement : Written (.code (.mk (some x) names body)) i o →
      Written (.statement inside (.function (.mk (some x) names body))) (.mark .kwFunction :: i) o
  | giveNothing : Written (.statement inside (.giveBack none))
      (.mark .kwReturn :: .mark .semicolon :: o) o
  | giveBack : Written (.enclosed e) i (.mark .semicolon :: o) →
      Written (.statement inside (.giveBack (some e))) (.mark .kwReturn :: i) o
  | block : Written (.block inside body) i o →
      Written (.statement inside (.block body)) (.mark .leftBrace :: i) o
  | expression : Written (.enclosed e) i (.mark .semicolon :: o) →
      Written (.statement inside (.expression e)) i o
  | leave : Written (.statement true .leave) (.mark .kwBreak :: .mark .semicolon :: o) o
  | branch : Written (.conditional inside condition thenBody otherwise) i o →
      Written (.statement inside (.branch condition thenBody otherwise)) (.mark .kwIf :: i) o
  | noElse : Written (.enclosed condition) i (.mark .leftBrace :: j) →
      Written (.block inside thenBody) j (l :: o) → l.kind ≠ .kwElse →
      Written (.conditional inside condition thenBody none) i (l :: o)
  | elseBlock : Written (.enclosed condition) i (.mark .leftBrace :: j) →
      Written (.block inside thenBody) j (.mark .kwElse :: .mark .leftBrace :: k) →
      Written (.block inside elseBody) k o →
      Written (.conditional inside condition thenBody (some (.block elseBody))) i o
  | elseIf : Written (.enclosed condition) i (.mark .leftBrace :: j) →
      Written (.block inside thenBody) j (.mark .kwElse :: .mark .kwIf :: k) →
      Written (.conditional inside e elseBody otherwise) k o →
      Written (.conditional inside condition thenBody (some (.branch e elseBody otherwise))) i o
  -- loops
  | loop : Written (.header init test increment) i (.mark .leftBrace :: j) →
      Written (.block true body) j o →
      Written (.statement inside (.loop init test increment body)) (.mark .kwFor :: i) o
  | noInit : Written (.init none) (.mark .semicolon :: o) o
  | someInit : Written (.definition s) i o → Written (.init (some s)) (.mark .kwLet :: i) o
  | noClause : Written (.clause none) o o
  | someClause : Written (.enclosed e) i o → Written (.clause (some e)) i o
  | header : Written (.init init) i j → Written (.clause test) j (.mark .semicolon :: k) →
      Written (.clause increment) k (.mark .rightParen :: o) →
      Written (.header init test increment) (.mark .leftParen :: i) o
  | bareHeader : Written (.init init) i j → Written (.clause test) j (.mark .semicolon :: k) →
      Written (.clause increment) k o → Written (.header init test increment) i o
  | testOnly : Written (.enclosed e) i o → Written (.header none (some e) none) i o
  | forever : Written (.header none none none) o o
  -- choices
  | choose : Written (.enclosed e) i (.mark .leftBrace :: j) → Written (.groups groups other) j o →
      Written (.statement inside (.choose e groups other)) (.mark .kwSwitch :: i) o
  | groupsEnd : Written (.groups [] none) (.mark .rightBrace :: o) o
  | group : Written (.labels es) i j → Written (.groupBody body) j k →
      Written (.groups groups other) k o →
      Written (.groups (.mk es body :: groups) other) (.mark .kwCase :: i) o
  | default : Written (.groupBody body) i j → Written (.groups groups none) j o →
      Written (.groups groups (some body)) (.mark .kwDefault :: .mark .colon :: i) o
  | lastLabel : Written (.enclosed e) i (.mark .colon :: o) → Written (.labels [e]) i o
  | label : Written (.enclosed e) i (.mark .comma :: j) → Written (.labels es) j o →
      Written (.labels (e :: es)) i o
  | groupEnd : l.kind.endsGroup = true → Written (.groupBody []) (l :: o) (l :: o)
  | groupStatement : Written (.statement true s) i j → Written (.groupBody rest) j o →
      Written (.groupBody (s :: rest)) i o
  -- scripts
  | scriptEnd : Written (.script []) (.mark .eof :: o) o
  | scriptStatement : s.IsDefinition → Written (.statement false s) i j →
      Written (.script rest) j o → Written (.script (s :: rest)) i o

end

/-! ## How long phrases are -/

/-- So many lexemes are needed at least. -/
def Phrase.least : Phrase → Nat
  | .enclosed _ => 2
  | .clause _ | .header .. | .groupBody _ => 0
  | _ => 1

/-- What follows a phrase is shorter than all that is left. -/
theorem Written.length_le {phrase : Phrase} {i o : List Lexeme} (h : Written phrase i o) :
    o.length + phrase.least ≤ i.length := by
  induction h <;> simp only [Phrase.least, List.length_cons] at * <;> omega

end Tao
