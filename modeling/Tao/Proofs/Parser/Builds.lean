/-
  What parsers build from the tokens of a text.

  A token is READ if its lexeme can be written: its name is a word that is no keyword, its number is
  not too large, its mark is one.  Scanning gives such tokens only.  `Builds x P` says of a parser
  `x` that, as long as all tokens handed back were read, what it gives satisfies `P` and all tokens
  that it hands back were read.  Taking a token tells what is known of its lexeme.
-/
import Mathlib.Data.List.TakeWhile
import Tao.Proofs.Parser.Gives
import Tao.Proofs.Parser.Spelled

namespace Tao

/-! ## Tokens that were read -/

/-- Does this token come from a text? -/
def Token.IsRead (token : Token) : Prop :=
  token.lexeme.IsLegal ∨ token.lexeme = .mark .eof

/-- Does this token carry a name? -/
def Token.Names (token : Token) : Prop := IsName token.lexeme.contents

/-- All but the end of the text can be written. -/
theorem Token.IsRead.isLegal {token : Token} {l : Lexeme} (h : token.IsRead)
    (hlexeme : token.lexeme = l) (hmore : l ≠ .mark .eof) : l.IsLegal := by
  subst hlexeme
  exact h.resolve_right hmore

/-- No mark is an identifier, so a token of that kind has a name. -/
theorem Token.IsRead.names {token : Token} (h : token.IsRead) (hkind : token.kind = .identifier) :
    token.Names := by
  obtain ⟨lexeme, position⟩ := token
  cases lexeme with
  | name text => exact h.isLegal rfl nofun
  | string contents => cases hkind
  | number value => cases hkind
  | mark kind =>
    have hkind : kind = .identifier := hkind
    subst hkind
    have hmark : Kind.identifier ∈ Kind.punctuation ∨ Kind.identifier ∈ Kind.keywords :=
      h.isLegal rfl nofun
    exact absurd hmark (by decide)

namespace Cursor

variable {rest : List Char} {p : Position}

/-- Induction on the characters that are left. -/
theorem le_maxNumber_of_readDigits {value found : Nat} {after : Cursor} (hvalue : value ≤ maxNumber)
    (h : readDigits value rest p = (some found, after)) : found ≤ maxNumber := by
  induction rest generalizing value p with
  | nil =>
    cases h
    exact hvalue
  | cons c rest ih =>
    unfold readDigits at h
    dsimp only at h
    split at h
    · split at h
      · next hsmall => exact ih hsmall h
      · cases h
    · cases h
      exact hvalue

/-- A word is a keyword or a name. -/
theorem isLegal_readWord {c : Char} (hc : isWordStart c = true) :
    (readWord (c :: rest) p).1.IsLegal := by
  unfold readWord
  dsimp only
  have hword : (c :: rest).takeWhile isWordChar = c :: rest.takeWhile isWordChar :=
    List.takeWhile_cons_of_pos (isWordChar_of_isWordStart hc)
  split
  · next kind hkind => exact .inr (List.mem_of_find?_eq_some hkind)
  · next hnone =>
    refine ⟨?_, fun d hd => ?_, hnone⟩
    · rw [String.toList_ofList, hword]
      exact hc
    · rw [String.toList_ofList] at hd
      exact List.mem_takeWhile_imp hd

/-- A lexeme that is not glued to another stays what it is. -/
theorem eq_of_unlessGlued {l l' : Lexeme} {cursor after : Cursor}
    (h : unlessGlued l cursor = (.ok l', after)) : l' = l := by
  unfold unlessGlued at h
  split at h
  · split at h <;> cases h
    rfl
  · cases h
    rfl

/-- A lexeme that is read can be written, or is the end. -/
theorem isLegal_of_readLexeme {cursor after : Cursor} {l : Lexeme}
    (h : cursor.readLexeme = (.ok l, after)) : l.IsLegal ∨ l = .mark .eof := by
  unfold readLexeme at h
  split at h
  · cases h
    exact .inr rfl
  · next c rest p =>
    split at h
    · split at h
      · next value _ hdigits =>
        obtain rfl := eq_of_unlessGlued h
        exact .inl (le_maxNumber_of_readDigits (Nat.zero_le _) hdigits)
      · cases h
    · split at h
      · next hstart =>
        obtain rfl := eq_of_unlessGlued h
        exact .inl (isLegal_readWord (p := p) hstart)
      · split at h
        · split at h
          · obtain rfl := eq_of_unlessGlued h
            exact .inl trivial
          · cases h
        · split at h
          · next kind hmark =>
            cases h
            exact .inl (.inl (List.mem_of_find?_eq_some hmark))
          · cases h

/-- Scanning reads. -/
theorem isRead_of_scan {cursor after : Cursor} {token : Token}
    (h : cursor.scan = (.ok token, after)) : token.IsRead := by
  unfold scan at h
  dsimp only at h
  split at h
  · next l _ hread =>
    cases h
    exact isLegal_of_readLexeme hread
  · cases h

end Cursor

namespace Parser

/-- Were all tokens read that were handed back? -/
def Clean (parser : Parser) : Prop := ∀ token ∈ parser.tokens.pending, token.IsRead

/-- Was a token of this kind handed back last? -/
def HasNext (kind : Kind) (parser : Parser) : Prop :=
  ∃ token ∈ parser.tokens.pending.head?, token.kind = kind

/-- What `x` gives satisfies `P`, and all tokens that it hands back were read. -/
def Builds {α : Type} (x : Parse α) (P : α → Prop) : Prop := Takes Clean Clean x P

variable {α β σ : Type} {P Q : α → Prop}

/-! ## Putting parsers together -/

namespace Builds

/-- The laws of `Takes` at clean parsers. -/
theorem pure {a : α} (h : P a) : Builds (pure a) P := Takes.pure h

theorem fail {e : SyntaxError} : Builds (Tao.fail e) P := Takes.fail

theorem failBind {e : SyntaxError} {f : α → Parse β} {P : β → Prop} :
    Builds (Tao.fail e >>= f) P := Takes.failBind

theorem outOfFuel : Builds (fun parser => .error .outOfFuel parser) P := Takes.outOfFuel

theorem bind {x : Parse α} {f : α → Parse β} {P : β → Prop} (hx : Builds x Q)
    (hf : ∀ a, Q a → Builds (f a) P) : Builds (x >>= f) P := Takes.bind hx hf

theorem imp {x : Parse α} (hx : Builds x Q) (h : ∀ a, Q a → P a) : Builds x P := Takes.imp hx h

theorem map {x : Parse α} {f : α → β} {P : β → Prop} (hx : Builds x Q)
    (h : ∀ a, Q a → P (f a)) : Builds (f <$> x) P := Takes.map hx h

/-- Turn by turn, with an invariant of the turns. -/
theorem iterate {turn : σ → Parse (Turn σ α)} {I : σ → Prop} {fuel : Nat}
    (hturn : ∀ s, I s → Builds (turn s) (TurnKeeps I P)) {s : σ} (hs : I s) :
    Builds (Tao.iterate fuel turn s) P := Takes.iterate hturn hs

/-- The count of loops and switches is not a token. -/
theorem setCount (f : Nat → Nat) :
    Builds (modify fun parser => { parser with breakable := f parser.breakable })
      fun _ => True := Takes.modify fun _ h => h

/-- A change to anything but the tokens may come after. -/
theorem afterwards {x : Parse α} (hx : Builds x P) {f : Parser → Parser}
    (hf : ∀ parser, (f parser).tokens = parser.tokens) : Builds (afterwards x f) P :=
  Takes.afterwards hx fun parser h token hmem => h token (hf parser ▸ hmem)

end Builds

/-! ## Tokens -/

/-- A token that is taken was read: it was handed back, or it is scanned now. -/
theorem builds_take : Builds take Token.IsRead := by
  intro parser token next hclean hresult
  obtain ⟨⟨cursor, pending⟩, breakable⟩ := parser
  unfold take TokenStream.next at hresult
  cases pending with
  | cons first pending =>
    cases hresult
    exact ⟨fun t ht => hclean t (List.mem_cons_of_mem _ ht), hclean _ List.mem_cons_self⟩
  | nil =>
    dsimp only at hresult
    cases hscan : cursor.scan with
    | mk result after =>
      rw [hscan] at hresult
      cases result with
      | error e => cases hresult
      | ok read =>
        cases hresult
        exact ⟨fun _ ht => absurd ht List.not_mem_nil, Cursor.isRead_of_scan hscan⟩

/-- A token that was read may be put back. -/
theorem builds_putBack {token : Token} (h : token.IsRead) :
    Builds (putBack token) fun _ => True := by
  intro parser a next hclean hresult
  cases hresult
  exact ⟨List.forall_mem_cons.2 ⟨h, hclean⟩, trivial⟩

theorem builds_peek : Builds peek Token.IsRead :=
  builds_take.bind fun _ htoken => (builds_putBack htoken).bind fun _ _ => .pure htoken

theorem builds_nextIs (kind : Kind) : Builds (nextIs kind) fun _ => True :=
  builds_peek.bind fun _ _ => .pure trivial

theorem builds_takeIf (kind : Kind) : Builds (takeIf kind) fun _ => True := by
  refine builds_take.bind fun token htoken => ?_
  split
  · exact .pure trivial
  · exact (builds_putBack htoken).bind fun _ _ => .pure trivial

theorem builds_expect (kind : Kind) :
    Builds (expect kind) fun token => token.IsRead ∧ token.kind = kind := by
  refine builds_take.bind fun token htoken => ?_
  split
  · next hkind => exact .pure ⟨htoken, hkind⟩
  · exact .fail

/-- A name is the name of a token that was read. -/
theorem builds_expectName : Builds expectName IsName :=
  (builds_expect .identifier).bind fun _ htoken => .pure (htoken.1.names htoken.2)

/-- Putting back all that was looked at.  Induction on the tokens. -/
theorem builds_restore {tokens : List Token} (h : ∀ token ∈ tokens, token.IsRead) :
    Builds (tokens.forM putBack) fun _ => True := by
  induction tokens with
  | nil => exact .pure trivial
  | cons token rest ih =>
    obtain ⟨htoken, hrest⟩ := List.forall_mem_cons.1 h
    exact (builds_putBack htoken).bind fun _ _ => ih hrest

/-! ## Looking ahead -/

/-- What is found by looking at it has been handed back. -/
theorem hasNext_of_nextIs {kind : Kind} {parser next : Parser}
    (h : nextIs kind parser = .ok true next) : next.HasNext kind := by
  unfold nextIs peek at h
  obtain ⟨token, middle, hpeek, h⟩ := EStateM.exists_of_bind_ok h
  obtain ⟨taken, after, -, hback⟩ := EStateM.exists_of_bind_ok hpeek
  have hback : EStateM.Result.ok taken { after with tokens := after.tokens.putBack taken } =
      .ok token middle := hback
  have h : EStateM.Result.ok (decide (token.kind = kind)) middle = .ok true next := h
  obtain ⟨rfl, rfl⟩ := EStateM.Result.ok.inj hback
  obtain ⟨hkind, rfl⟩ := EStateM.Result.ok.inj h
  exact ⟨taken, rfl, of_decide_eq_true hkind⟩

/-- Where a token decides, it is known to come next. -/
theorem Builds.ifNextIs {kind : Kind} {x y : Parse β} {P : β → Prop}
    (hx : Takes (fun parser => parser.Clean ∧ parser.HasNext kind) Clean x P)
    (hy : Builds y P) : Builds (do if ← nextIs kind then x else y) P := by
  intro parser b next hclean hresult
  obtain ⟨found, middle, hfirst, hrest⟩ := EStateM.exists_of_bind_ok hresult
  obtain ⟨hmiddle, -⟩ := builds_nextIs kind parser found middle hclean hfirst
  cases found with
  | true => exact hx middle b next ⟨hmiddle, hasNext_of_nextIs hfirst⟩ hrest
  | false => exact hy middle b next hmiddle hrest

/-- Where the next token is known, asking for its kind changes nothing. -/
theorem nextIs_of_hasNext {kind : Kind} {parser : Parser} (h : parser.HasNext kind) :
    nextIs kind parser = .ok true parser := by
  obtain ⟨token, hhead, hkind⟩ := h
  obtain ⟨⟨cursor, pending⟩, breakable⟩ := parser
  cases pending with
  | nil => cases hhead
  | cons first rest =>
    obtain rfl := Option.some.inj hhead
    show EStateM.Result.ok (decide (first.kind = kind)) _ = _
    rw [decide_eq_true hkind]
    rfl

/-- Looking at a token that is known to come next tells what is known. -/
theorem Builds.knownNext {kind : Kind} {f : Bool → Parse β} {P : β → Prop} (h : Builds (f true) P) :
    Takes (fun parser => parser.Clean ∧ parser.HasNext kind) Clean (nextIs kind >>= f) P := by
  rintro parser b next ⟨hclean, hnext⟩ hresult
  rw [EStateM.bind_apply, nextIs_of_hasNext hnext] at hresult
  exact h parser b next hclean hresult

end Parser

end Tao
