/-
  Looking ahead for a lambda.

  1. **Program** — after an opening parenthesis, `Grammar.lambdaHead` takes tokens one by one, keeps
     them, and toggles a flag with each: a name may come next, or a comma.  If a lambda does not
     come, all tokens kept are handed back, last one first, on top of one that was only looked at.

  2. **Specification** — the head of a lambda is a listing of names, then `)`, then `=>`
     (`IsLambdaHead`).  A session on the stream (`Session.answers`) tells nothing of a lookahead
     that has found no head.

  3. **The crux** — what remains of a head depends on the flag alone (`Remains`), and the head that
     comes, if one does, is told token by token (`Comes.cases`).  By induction on the turns, the
     loop finds the head, or the tokens seen give back the stream, or it meets a lexical error
     (`finds_iterate`).  That a stream to which its own tokens were handed back is as good as the
     stream itself is a bisimulation (`Rewinds.answers`).
-/
import Tao.Parser.Script
import Tao.Proofs.Parser.Abreast.Basic
import Tao.Proofs.Parser.Reads
import Tao.Proofs.Scanner.HandedBack

namespace Tao

/-! ## Heads of lambdas -/

/-- Names, and a comma after each but perhaps the last. -/
inductive Listing : List Token → List Token → Prop where
  | nil : Listing [] []
  | last {name} : name.kind = .identifier → Listing [name] [name]
  | more {name comma params tokens} : name.kind = .identifier → comma.kind = .comma →
      Listing params tokens → Listing (name :: params) (name :: comma :: tokens)

/-- Are these the tokens between `(` and the body of a lambda with these parameters? -/
def IsLambdaHead (params tokens : List Token) : Prop :=
  ∃ listing close arrow, tokens = listing ++ [close, arrow] ∧ Listing params listing ∧
    close.kind = .rightParen ∧ arrow.kind = .lambda

/-- What remains of a head, with its parameters, where a name may come and where it may not. -/
inductive Remains : Bool → List Token → List Token → Prop where
  | close {wantName close arrow} : close.kind = .rightParen → arrow.kind = .lambda →
      Remains wantName [] [close, arrow]
  | name {name params tokens} : name.kind = .identifier → Remains false params tokens →
      Remains true (name :: params) (name :: tokens)
  | comma {comma params tokens} : comma.kind = .comma → Remains true params tokens →
      Remains false params (comma :: tokens)

variable {params tokens : List Token} {wantName : Bool}

/-- A listing and the two marks after it.  Induction on the listing. -/
theorem Remains.of_listing {listing : List Token} (h : Listing params listing) {close arrow : Token}
    (hclose : close.kind = .rightParen) (harrow : arrow.kind = .lambda) :
    Remains true params (listing ++ [close, arrow]) := by
  induction h with
  | nil => exact .close hclose harrow
  | last hname => exact .name hname (.close hclose harrow)
  | more hname hcomma _ ih => exact .name hname (.comma hcomma ih)

/-- Where a comma may come, there was a name before. -/
theorem Remains.isLambdaHead (h : Remains wantName params tokens) :
    if wantName then IsLambdaHead params tokens
    else ∀ name : Token, name.kind = .identifier →
      IsLambdaHead (name :: params) (name :: tokens) := by
  induction h with
  | @close wantName close arrow hclose harrow =>
    cases wantName with
    | true => exact ⟨[], close, arrow, rfl, .nil, hclose, harrow⟩
    | false => exact fun name hname => ⟨[name], close, arrow, rfl, .last hname, hclose, harrow⟩
  | name hname _ ih => exact ih _ hname
  | comma hcomma _ ih =>
    obtain ⟨listing, close, arrow, rfl, hlisting, hmarks⟩ := ih
    exact fun name hname => ⟨_, close, arrow, rfl, .more hname hcomma hlisting, hmarks⟩

/-- At the beginning all of the head remains. -/
theorem remains_iff : Remains true params tokens ↔ IsLambdaHead params tokens := by
  constructor
  · exact fun h => h.isLambdaHead
  · rintro ⟨listing, close, arrow, rfl, hlisting, hclose, harrow⟩
    exact .of_listing hlisting hclose harrow

namespace TokenStream

/-! ## Tokens one after another -/

/-- The next tokens of the stream are these, and `after` is what they leave. -/
inductive Yields : TokenStream → List Token → TokenStream → Prop where
  | nil (stream) : Yields stream [] stream
  | cons {stream middle after token tokens} : stream.next = (.ok token, middle) →
      Yields middle tokens after → Yields stream (token :: tokens) after

/-- Tokens were taken from the stream, and all of them handed back. -/
def Rewinds (stream rewound : TokenStream) : Prop :=
  ∃ tokens after, stream.Yields tokens after ∧ rewound = ⟨after.cursor, tokens ++ after.pending⟩

/-- Reading on for as long as what is read may begin the head of a lambda, one meets a lexical
    error. -/
def ErrsInHead (stream : TokenStream) : Prop :=
  ∃ params read more stop e after, IsLambdaHead params (read ++ more) ∧ more ≠ [] ∧
    stream.Yields read stop ∧ stop.next = (.error e, after)

variable {stream middle after rewound : TokenStream} {token : Token}

theorem Rewinds.refl (stream : TokenStream) : stream.Rewinds stream :=
  ⟨[], stream, .nil stream, rfl⟩

/-- To look at the next token is to take it and to hand it back. -/
theorem Rewinds.of_next (h : stream.next = (.ok token, after)) :
    stream.Rewinds (after.putBack token) :=
  ⟨[token], after, .cons h (.nil after), rfl⟩

/-- One more token taken, and put back. -/
theorem Rewinds.cons (hnext : stream.next = (.ok token, middle)) (h : middle.Rewinds rewound) :
    stream.Rewinds (rewound.putBack token) := by
  obtain ⟨tokens, after, hyields, rfl⟩ := h
  exact ⟨token :: tokens, after, .cons hnext hyields, rfl⟩

/-- The same token may be put back to both. -/
theorem Rewinds.putBack (h : stream.Rewinds rewound) (token : Token) :
    (stream.putBack token).Rewinds (rewound.putBack token) :=
  .cons rfl h

/-- A rewound stream gives the same token. -/
theorem Rewinds.next (h : stream.Rewinds rewound) : rewound = stream ∨
    ∃ token after after', stream.next = (.ok token, after) ∧
      rewound.next = (.ok token, after') ∧ after.Rewinds after' := by
  obtain ⟨tokens, after, hyields, rfl⟩ := h
  cases hyields with
  | nil => exact .inl rfl
  | cons hnext hrest => exact .inr ⟨_, _, _, hnext, rfl, _, _, hrest, rfl⟩

/-- What an action answers, and what it leaves. -/
theorem Rewinds.step (h : stream.Rewinds rewound) (taken : List Token) (action : Action) :
    Session.step ⟨stream, taken⟩ action = none ∧ Session.step ⟨rewound, taken⟩ action = none ∨
    ∃ answer after after' taken',
      Session.step ⟨stream, taken⟩ action = some (answer, ⟨after, taken'⟩) ∧
      Session.step ⟨rewound, taken⟩ action = some (answer, ⟨after', taken'⟩) ∧
      after.Rewinds after' := by
  cases action with
  | handBack =>
    cases taken with
    | nil => exact .inl ⟨rfl, rfl⟩
    | cons token taken => exact .inr ⟨_, _, _, _, rfl, rfl, h.putBack token⟩
  | take =>
    right
    unfold Session.step
    rcases h.next with rfl | ⟨token, after, after', hnext, hnext', hafter⟩
    · cases rewound.next with
      | mk result after => cases result <;> exact ⟨_, _, _, _, rfl, rfl, .refl _⟩
    · rw [hnext, hnext']
      exact ⟨_, _, _, _, rfl, rfl, hafter⟩
  | look =>
    right
    unfold Session.step
    rcases h.next with rfl | ⟨token, after, after', hnext, hnext', hafter⟩
    · exact ⟨_, _, _, _, rfl, rfl, .refl _⟩
    · unfold peek
      rw [hnext, hnext']
      exact ⟨_, _, _, _, rfl, rfl, hafter.putBack token⟩

/-- No session can tell a rewound stream.  Induction on the actions. -/
theorem Rewinds.answers (h : stream.Rewinds rewound) (taken : List Token) (actions : List Action) :
    Session.answers ⟨rewound, taken⟩ actions = Session.answers ⟨stream, taken⟩ actions := by
  induction actions generalizing stream rewound taken with
  | nil => rfl
  | cons action rest ih =>
    unfold Session.answers
    rcases h.step taken action with
      ⟨hstep, hstep'⟩ | ⟨answer, after, after', taken', hstep, hstep', hafter⟩
    · rw [hstep, hstep']
    · rw [hstep, hstep']
      show (do return answer :: (← Session.answers ⟨after', taken'⟩ rest)) = _
      rw [ih hafter taken']
      rfl

end TokenStream

/-! ## The head that comes -/

/-- What remains of a head is to come, and `after` is what it leaves. -/
def Comes (wantName : Bool) (params : List Token) (stream after : TokenStream) : Prop :=
  ∃ tokens, Remains wantName params tokens ∧ stream.Yields tokens after

namespace Comes

variable {stream middle after : TokenStream} {token : Token}

/-- The next token tells what comes after it. -/
theorem cases (h : Comes wantName params stream after)
    (hnext : stream.next = (.ok token, middle)) :
    token.kind = .rightParen ∧ params = [] ∧
        (∃ arrow, arrow.kind = .lambda ∧ middle.next = (.ok arrow, after)) ∨
      token.kind = .identifier ∧ wantName = true ∧
        (∃ rest, params = token :: rest ∧ Comes false rest middle after) ∨
      token.kind = .comma ∧ wantName = false ∧ Comes true params middle after := by
  obtain ⟨tokens, hremains, hyields⟩ := h
  cases hyields with
  | nil => cases hremains
  | cons hfirst hrest =>
    cases hnext.symm.trans hfirst
    cases hremains with
    | close hclose harrow =>
      cases hrest with
      | cons hsecond hend =>
        cases hend
        exact .inl ⟨hclose, rfl, _, harrow, hsecond⟩
    | name hname hmore => exact .inr (.inl ⟨hname, rfl, _, rfl, _, hmore, hrest⟩)
    | comma hcomma hmore => exact .inr (.inr ⟨hcomma, rfl, _, hmore, hrest⟩)

/-- No head comes where the next token is an error. -/
theorem not_of_error {e : SyntaxError} (hnext : stream.next = (.error e, middle)) :
    ¬ Comes wantName params stream after := by
  rintro ⟨tokens, hremains, hyields⟩
  cases hyields with
  | nil => cases hremains
  | cons hfirst => cases hnext.symm.trans hfirst

end Comes

/-- No more than one head is to come.  Induction on what remains of it. -/
theorem Comes.unique {stream after after' : TokenStream} {params' : List Token}
    (h : Comes wantName params stream after) (h' : Comes wantName params' stream after') :
    params = params' ∧ after = after' := by
  obtain ⟨tokens, hremains, hyields⟩ := h
  -- the kind of the next token tells the three ways apart
  induction hremains generalizing stream params' with
  | close hclose harrow =>
    cases hyields with
    | cons hnext hrest =>
      cases hrest with
      | cons hsecond hend =>
        cases hend
        rcases h'.cases hnext with ⟨-, rfl, arrow, -, hsecond'⟩ | ⟨hkind, -⟩ | ⟨hkind, -⟩
        · cases hsecond.symm.trans hsecond'
          exact ⟨rfl, rfl⟩
        · cases hclose.symm.trans hkind
        · cases hclose.symm.trans hkind
  | name hname hmore ih =>
    cases hyields with
    | cons hnext hrest =>
      rcases h'.cases hnext with ⟨hkind, -⟩ | ⟨-, -, rest, rfl, hcomes⟩ | ⟨hkind, -⟩
      · cases hname.symm.trans hkind
      · obtain ⟨rfl, rfl⟩ := ih hcomes hrest
        exact ⟨rfl, rfl⟩
      · cases hname.symm.trans hkind
  | comma hcomma hmore ih =>
    cases hyields with
    | cons hnext hrest =>
      rcases h'.cases hnext with ⟨hkind, -⟩ | ⟨hkind, -⟩ | ⟨-, -, hcomes⟩
      · cases hcomma.symm.trans hkind
      · cases hcomma.symm.trans hkind
      · exact ih hcomes hrest

/-- What comes at the beginning is a head. -/
theorem comes_iff {stream after : TokenStream} : Comes true params stream after ↔
    ∃ tokens, IsLambdaHead params tokens ∧ stream.Yields tokens after := by
  unfold Comes
  simp only [remains_iff]

namespace Grammar

open Tao.Parser

/-! ## Reading ahead -/

/-- What a token does to a lookahead. -/
def headToken (ahead : Lookahead) (token : Token) : Parse (Turn Lookahead (Bool × Lookahead)) := do
  let seen := token :: ahead.seen
  match token.kind with
  | .rightParen => return .done (← nextIs .lambda, { ahead with seen })
  | .identifier =>
    if ahead.wantName then return .again ⟨seen, token :: ahead.params, false⟩
    else return .done (false, { ahead with seen })
  | .comma =>
    if ahead.wantName then return .done (false, { ahead with seen })
    else return .again ⟨seen, ahead.params, true⟩
  | _ => return .done (false, { ahead with seen })

/-- What is done with the tokens seen. -/
def headEnd (found : Bool × Lookahead) : Parse (Option (List Token)) :=
  if found.1 then do
    let _ ← take
    return some found.2.params.reverse
  else do
    found.2.seen.forM putBack
    return none

/-- A lookahead takes tokens turn by turn and then decides. -/
theorem lambdaHead_eq (g : Grammar) : g.lambdaHead =
    iterate g.bound (fun ahead => take >>= headToken ahead) ⟨[], [], true⟩ >>= headEnd := rfl

/-- What a lookahead comes to: the head that comes, with the arrow handed back; no head, and tokens
    seen that give back the stream; or a lexical error where a head might go on. -/
inductive Finds (p : Parser) (ahead : Lookahead) : Parser.Result (Bool × Lookahead) → Prop where
  | head {params found arrow after} : Comes ahead.wantName params p.tokens after →
      found.params = params.reverse ++ ahead.params →
      Finds p ahead (.ok (true, found) { p with tokens := after.putBack arrow })
  | none (tokens : List Token) {found next} :
      (∀ params after, ¬ Comes ahead.wantName params p.tokens after) →
      found.seen = tokens.reverse ++ ahead.seen →
      p.tokens.Rewinds ⟨next.cursor, tokens ++ next.pending⟩ →
      Finds p ahead (.ok (false, found) { p with tokens := next })
  | lexical (read : List Token) {params more stop after e} :
      (∀ params after, ¬ Comes ahead.wantName params p.tokens after) →
      Remains ahead.wantName params (read ++ more) → more ≠ [] → p.tokens.Yields read stop →
      stop.next = (.error e, after) → Finds p ahead (.error (.failed e) { p with tokens := after })

variable {p : Parser} {ahead next : Lookahead} {token : Token} {middle : TokenStream}
  {r : Parser.Result (Bool × Lookahead)}

/-- A token that a head goes on with. -/
theorem Finds.again (own : List Token) (hnext : p.tokens.next = (.ok token, middle))
    (hseen : next.seen = token :: ahead.seen) (hparams : next.params = own.reverse ++ ahead.params)
    (hremains : ∀ params tokens, Remains next.wantName params tokens →
      Remains ahead.wantName (own ++ params) (token :: tokens))
    (honly : ∀ params after, Comes ahead.wantName params p.tokens after →
      ∃ rest, Comes next.wantName rest middle after)
    (h : Finds { p with tokens := middle } next r) : Finds p ahead r := by
  cases h with
  | @head params found arrow after hcomes hfound =>
    obtain ⟨tokens, hrest, hyields⟩ := hcomes
    refine .head ⟨_, hremains _ _ hrest, .cons hnext hyields⟩ ?_
    rw [hfound, hparams, List.reverse_append, List.append_assoc]
  | @none tokens found last hno hfound hrewinds =>
    refine .none (token :: tokens) (fun params after hcomes => ?_) ?_ (.cons hnext hrewinds)
    · obtain ⟨rest, hrest⟩ := honly params after hcomes
      exact hno rest after hrest
    · rw [hfound, hseen, List.reverse_cons, List.append_assoc]
      rfl
  | @lexical read params more stop after e hno hrest hmore hyields herror =>
    refine .lexical (token :: read) (fun params after hcomes => ?_) (hremains _ _ hrest)
      hmore (.cons hnext hyields) herror
    obtain ⟨rest, hrest⟩ := honly params after hcomes
    exact hno rest after hrest

/-- A token that no head goes on with. -/
theorem Finds.noHead (hnext : p.tokens.next = (.ok token, middle))
    (hclose : token.kind ≠ .rightParen) (hname : token.kind = .identifier → ahead.wantName = false)
    (hcomma : token.kind = .comma → ahead.wantName = true) :
    Finds p ahead (.ok (false, { ahead with seen := token :: ahead.seen })
      { p with tokens := middle }) := by
  refine .none [token] (fun params after hcomes => ?_) rfl
    (TokenStream.Rewinds.cons hnext (.refl middle))
  rcases hcomes.cases hnext with ⟨hkind, -⟩ | ⟨hkind, hwant, -⟩ | ⟨hkind, hwant, -⟩
  · exact hclose hkind
  · exact Bool.false_ne_true ((hname hkind).symm.trans hwant)
  · exact Bool.false_ne_true (hwant.symm.trans (hcomma hkind))

/-- Whatever may remain of a head, it can be closed at once. -/
theorem remains_marks (wantName : Bool) :
    Remains wantName [] [⟨.mark .rightParen, default⟩, ⟨.mark .lambda, default⟩] :=
  .close rfl rfl

/-- What comes of a token of the lookahead: it goes on, or it has found what there is. -/
inductive TurnFinds (p : Parser) (ahead : Lookahead) (token : Token) (middle : TokenStream) :
    Parser.Result (Turn Lookahead (Bool × Lookahead)) → Prop where
  | again {further} : token.kind ≠ .eof →
      (∀ r, Finds { p with tokens := middle } further r → Finds p ahead r) →
      TurnFinds p ahead token middle (.ok (.again further) { p with tokens := middle })
  | done {found q} : Finds p ahead (.ok found q) →
      TurnFinds p ahead token middle (.ok (.done found) q)
  | error {halt q} : Finds p ahead (.error halt q) →
      TurnFinds p ahead token middle (.error halt q)

/-- Where a closing parenthesis is seen, the token after it decides. -/
theorem turnFinds_close (hnext : p.tokens.next = (.ok token, middle))
    (hkind : token.kind = .rightParen) :
    TurnFinds p ahead token middle (headToken ahead token { p with tokens := middle }) := by
  -- the head that comes, if one does, ends with the next token
  have honly : ∀ params after, Comes ahead.wantName params p.tokens after →
      ∃ arrow, arrow.kind = .lambda ∧ middle.next = (.ok arrow, after) := by
    intro params after hcomes
    rcases hcomes.cases hnext with ⟨-, -, harrow⟩ | ⟨hname, -⟩ | ⟨hcomma, -⟩
    · exact harrow
    · cases hkind.symm.trans hname
    · cases hkind.symm.trans hcomma
  unfold headToken nextIs
  rw [hkind]
  dsimp only
  rw [EStateM.bind_apply, EStateM.bind_apply]
  cases hsecond : middle.next with
  | mk result after =>
    cases result with
    | error e =>
      rw [peek_of_error hsecond]
      have hremains : Remains ahead.wantName [] [token, ⟨.mark .lambda, default⟩] :=
        .close hkind rfl
      refine .error <| .lexical [token] (fun params after hcomes => ?_) hremains
        (List.cons_ne_nil _ _) (.cons hnext (.nil middle)) hsecond
      obtain ⟨arrow, -, harrow⟩ := honly params after hcomes
      cases hsecond.symm.trans harrow
    | ok arrow =>
      rw [peek_of_next hsecond]
      refine .done ?_
      by_cases harrow : arrow.kind = .lambda
      · rw [decide_eq_true harrow]
        exact .head ⟨_, .close hkind harrow, .cons hnext (.cons hsecond (.nil after))⟩ rfl
      · rw [decide_eq_false harrow]
        refine .none [token] (fun params after hcomes => ?_) rfl
          (TokenStream.Rewinds.cons hnext (.of_next hsecond))
        obtain ⟨found, hfound, hthird⟩ := honly params after hcomes
        cases hsecond.symm.trans hthird
        exact harrow hfound

/-- A name, where one may come or where not. -/
theorem turnFinds_name (hnext : p.tokens.next = (.ok token, middle))
    (hkind : token.kind = .identifier) :
    TurnFinds p ahead token middle (headToken ahead token { p with tokens := middle }) := by
  obtain ⟨seen, params, wantName⟩ := ahead
  unfold headToken
  rw [hkind]
  cases wantName with
  | true =>
    refine .again (by rw [hkind]; decide) fun r => .again [token] hnext rfl rfl
      (fun _ _ => .name hkind) fun found after hcomes => ?_
    rcases hcomes.cases hnext with ⟨hclose, -⟩ | ⟨-, -, rest, -, hrest⟩ | ⟨hcomma, -⟩
    · cases hkind.symm.trans hclose
    · exact ⟨rest, hrest⟩
    · cases hkind.symm.trans hcomma
  | false =>
    refine .done <| .noHead hnext (by rw [hkind]; decide) (fun _ => rfl) fun hcomma => ?_
    cases hkind.symm.trans hcomma

/-- A comma, where one may come or where not. -/
theorem turnFinds_comma (hnext : p.tokens.next = (.ok token, middle))
    (hkind : token.kind = .comma) :
    TurnFinds p ahead token middle (headToken ahead token { p with tokens := middle }) := by
  obtain ⟨seen, params, wantName⟩ := ahead
  unfold headToken
  rw [hkind]
  cases wantName with
  | true =>
    refine .done <| .noHead hnext (by rw [hkind]; decide) (fun hname => ?_) fun _ => rfl
    cases hkind.symm.trans hname
  | false =>
    refine .again (by rw [hkind]; decide) fun r => .again [] hnext rfl rfl
      (fun _ _ => .comma hkind) fun found after hcomes => ?_
    rcases hcomes.cases hnext with ⟨hclose, -⟩ | ⟨hname, -⟩ | ⟨-, -, hrest⟩
    · cases hkind.symm.trans hclose
    · cases hkind.symm.trans hname
    · exact ⟨found, hrest⟩

/-- A token that no head has anywhere. -/
theorem headToken_other (hclose : token.kind ≠ .rightParen) (hname : token.kind ≠ .identifier)
    (hcomma : token.kind ≠ .comma) : headToken ahead token =
      pure (.done (false, { ahead with seen := token :: ahead.seen })) := by
  unfold headToken
  generalize token.kind = kind at hclose hname hcomma
  cases kind <;>
    first | rfl | exact absurd rfl hclose | exact absurd rfl hname | exact absurd rfl hcomma

/-- The cases are those of the kind of the token. -/
theorem turnFinds (hnext : p.tokens.next = (.ok token, middle)) :
    TurnFinds p ahead token middle (headToken ahead token { p with tokens := middle }) := by
  by_cases hclose : token.kind = .rightParen
  · exact turnFinds_close hnext hclose
  by_cases hname : token.kind = .identifier
  · exact turnFinds_name hnext hname
  by_cases hcomma : token.kind = .comma
  · exact turnFinds_comma hnext hcomma
  · rw [headToken_other hclose hname hcomma]
    exact .done <| .noHead hnext hclose (absurd · hname) (absurd · hcomma)

/-- The loop finds what there is.  Induction on the turns that are left, which are more than the
    tokens. -/
theorem finds_iterate {fuel : Nat} (hfuel : p.tokens.left < fuel) :
    Finds p ahead (iterate fuel (fun ahead => take >>= headToken ahead) ahead p) := by
  induction fuel generalizing p ahead with
  | zero => exact absurd hfuel (Nat.not_lt_zero _)
  | succ fuel ih =>
    unfold iterate
    rw [EStateM.bind_apply, EStateM.bind_apply]
    unfold take
    cases hnext : p.tokens.next with
    | mk result middle =>
      cases result with
      | error e =>
        -- whatever the flag, a closing parenthesis might have come
        exact .lexical [] (fun _ _ => Comes.not_of_error hnext)
          (remains_marks ahead.wantName) (List.cons_ne_nil _ _) (.nil p.tokens) hnext
      | ok token =>
        have hturn : TurnFinds p ahead token middle _ := turnFinds hnext
        dsimp only
        generalize headToken ahead token { p with tokens := middle } = r at hturn
        cases hturn with
        | again hkind hgoesOn =>
          -- a token that is not the end of the text leaves fewer, so the turns suffice
          have hcount := TokenStream.left_next hnext
          rw [Token.weight_of_kind rfl hkind] at hcount
          refine hgoesOn _ (ih ?_)
          dsimp only
          omega
        | done hfinds => exact hfinds
        | error hfinds => exact hfinds

/-! ## What a lookahead decides -/

/-- Tokens handed back one by one, last one first, come in their order. -/
theorem putBackAll_apply (seen : List Token) (p : Parser) : (seen.forM putBack : Parse Unit) p =
    .ok () { p with tokens := ⟨p.tokens.cursor, seen.reverse ++ p.tokens.pending⟩ } := by
  induction seen generalizing p with
  | nil => rfl
  | cons token seen ih =>
    show (seen.forM putBack : Parse Unit) { p with tokens := p.tokens.putBack token } = _
    rw [ih, List.reverse_cons, List.append_assoc]
    rfl

/-- What comes of a lookahead. -/
theorem lambdaHead_cases (g : Grammar) (hbound : p.tokens.left < g.bound) :
    (∃ params after, Comes true params p.tokens after ∧
      g.lambdaHead p = .ok (some params) { p with tokens := after }) ∨
    (∀ params after, ¬ Comes true params p.tokens after) ∧
      ((∃ rewound, p.tokens.Rewinds rewound ∧
          g.lambdaHead p = .ok none { p with tokens := rewound }) ∨
        ∃ params read more stop after e, Remains true params (read ++ more) ∧ more ≠ [] ∧
          p.tokens.Yields read stop ∧ stop.next = (.error e, after) ∧
          g.lambdaHead p = .error (.failed e) { p with tokens := after }) := by
  have hfinds : Finds p ⟨[], [], true⟩ _ := finds_iterate hbound
  rw [lambdaHead_eq, EStateM.bind_apply]
  generalize iterate g.bound (fun ahead => take >>= headToken ahead) ⟨[], [], true⟩ p = r at hfinds
  cases hfinds with
  | @head params found arrow after hcomes hfound =>
    refine .inl ⟨params, after, hcomes, ?_⟩
    show EStateM.Result.ok (some found.params.reverse) _ = _
    rw [hfound, List.append_nil, List.reverse_reverse]
    rfl
  | @none tokens found next hno hfound hrewinds =>
    -- the tokens seen go on top of one that was only looked at
    refine .inr ⟨hno, .inl ⟨_, hrewinds, ?_⟩⟩
    dsimp only
    unfold headEnd
    rw [if_neg Bool.false_ne_true, EStateM.bind_apply, putBackAll_apply, hfound, List.append_nil,
      List.reverse_reverse]
    rfl
  | lexical read hno hremains hmore hyields herror =>
    exact .inr ⟨hno, .inr ⟨_, _, _, _, _, _, hremains, hmore, hyields, herror, rfl⟩⟩

/-- **A lookahead decides exactly and leaves no trace.**  It finds parameters just if the head of a
    lambda with these parameters is to come, and takes that head.  If none is to come, and no
    lexical error where a head might go on, it finds nothing; and where it finds nothing, whatever
    is taken, looked at and handed back afterwards is as if it had not been made. -/
theorem lambdaHead_decides (g : Grammar) (p : Parser) (hbound : p.tokens.left < g.bound) :
    (∀ params q, g.lambdaHead p = .ok (some params) q ↔
      ∃ tokens after, IsLambdaHead params tokens ∧ p.tokens.Yields tokens after ∧
        q = { p with tokens := after }) ∧
    ((¬ ∃ params tokens after, IsLambdaHead params tokens ∧ p.tokens.Yields tokens after) →
      ¬ p.tokens.ErrsInHead → ∃ q, g.lambdaHead p = .ok none q) ∧
    ∀ q, g.lambdaHead p = .ok none q → q.breakable = p.breakable ∧ ∀ taken actions,
      Session.answers ⟨q.tokens, taken⟩ actions = Session.answers ⟨p.tokens, taken⟩ actions := by
  rcases lambdaHead_cases g hbound with ⟨params, after, hcomes, hresult⟩ | ⟨hno, hrest⟩
  · rw [hresult]
    refine ⟨fun found q => ⟨?_, ?_⟩, fun hnone => ?_, nofun⟩
    · rintro ⟨⟩
      obtain ⟨tokens, htokens⟩ := comes_iff.1 hcomes
      exact ⟨tokens, after, htokens.1, htokens.2, rfl⟩
    · rintro ⟨tokens, last, hhead, hyields, rfl⟩
      obtain ⟨rfl, rfl⟩ := hcomes.unique (comes_iff.2 ⟨tokens, hhead, hyields⟩)
      rfl
    · obtain ⟨tokens, htokens⟩ := comes_iff.1 hcomes
      exact absurd ⟨params, tokens, after, htokens⟩ hnone
  -- no head is to come, and nothing is found because of that or because of an error
  have hnone : ∀ found q, ¬ ∃ tokens after, IsLambdaHead found tokens ∧
      p.tokens.Yields tokens after ∧ q = { p with tokens := after } := by
    rintro found q ⟨tokens, last, hhead, hyields, -⟩
    exact hno found last (comes_iff.2 ⟨tokens, hhead, hyields⟩)
  rcases hrest with ⟨rewound, hrewinds, hresult⟩ |
    ⟨params, read, more, stop, after, e, hremains, hmore, hyields, herror, hresult⟩
  · rw [hresult]
    refine ⟨fun found q => ⟨nofun, fun h => absurd h (hnone found q)⟩, fun _ _ => ⟨_, rfl⟩, ?_⟩
    rintro q ⟨⟩
    exact ⟨rfl, hrewinds.answers⟩
  · rw [hresult]
    refine ⟨fun found q => ⟨nofun, fun h => absurd h (hnone found q)⟩, fun _ hclean => ?_, nofun⟩
    exact absurd ⟨params, read, more, stop, e, after, remains_iff.1 hremains, hmore, hyields,
      herror⟩ hclean

/-- What follows the parenthesis of `(a,) => a`. -/
theorem lambdaHead_decides_listing :
    (ofText "a,) => a").tokens.left < (ofFuel 9).bound ∧
    ∃ q, (ofFuel 9).lambdaHead (ofText "a,) => a") = .ok (some [⟨.name "a", ⟨1, 1⟩⟩]) q ∧
      q.tokens = ⟨⟨" a".toList, ⟨1, 7⟩⟩, []⟩ := by
  have hbound : (ofText "a,) => a").tokens.left < (ofFuel 9).bound := by cbv
  have hname : (ofText "a,) => a").tokens.next =
    (.ok ⟨.name "a", ⟨1, 1⟩⟩, ⟨⟨",) => a".toList, ⟨1, 2⟩⟩, []⟩) := by cbv
  have hcomma : TokenStream.next ⟨⟨",) => a".toList, ⟨1, 2⟩⟩, []⟩ =
    (.ok ⟨.mark .comma, ⟨1, 2⟩⟩, ⟨⟨") => a".toList, ⟨1, 3⟩⟩, []⟩) := by cbv
  have hclose : TokenStream.next ⟨⟨") => a".toList, ⟨1, 3⟩⟩, []⟩ =
    (.ok ⟨.mark .rightParen, ⟨1, 3⟩⟩, ⟨⟨" => a".toList, ⟨1, 4⟩⟩, []⟩) := by cbv
  have harrow : TokenStream.next ⟨⟨" => a".toList, ⟨1, 4⟩⟩, []⟩ =
    (.ok ⟨.mark .lambda, ⟨1, 5⟩⟩, ⟨⟨" a".toList, ⟨1, 7⟩⟩, []⟩) := by cbv
  have hhead : IsLambdaHead [⟨.name "a", ⟨1, 1⟩⟩] [⟨.name "a", ⟨1, 1⟩⟩, ⟨.mark .comma, ⟨1, 2⟩⟩,
      ⟨.mark .rightParen, ⟨1, 3⟩⟩, ⟨.mark .lambda, ⟨1, 5⟩⟩] :=
    ⟨[_, _], _, _, rfl, .more rfl rfl .nil, rfl, rfl⟩
  have hyields := TokenStream.Yields.cons hname <| .cons hcomma <| .cons hclose <|
    .cons harrow <| .nil _
  exact ⟨hbound, _, ((lambdaHead_decides (ofFuel 9) _ hbound).1 _ _).2
    ⟨_, _, hhead, hyields, rfl⟩, rfl⟩

end Grammar

end Tao
