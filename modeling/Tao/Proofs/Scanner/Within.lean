/-
  Positions in a text.

  A position is IN a text if one of its characters stands there, or if the text ends there.  A token
  stream keeps WITHIN a text if its cursor stands in the text and all tokens handed back to it come
  from there.  Such a stream offers tokens and errors whose positions are in the text, however often
  it is asked, and also when it has come to the end.
-/
import Tao.Proofs.Scanner.Munch

namespace Tao

variable {text whole taken : List Char} {p : Position}

/-- Does a character of the text stand here, or does the text end here? -/
def Position.IsIn (p : Position) (text : List Char) : Prop :=
  ∃ before after, text = before ++ after ∧ p = .behind before

/-! ## Cursors -/

namespace Cursor

variable {cursor after : Cursor} {e : SyntaxError}

/-- The cursor has come to this place by reading the text. -/
def StandsIn (cursor : Cursor) (text : List Char) : Prop :=
  ∃ before, text = before ++ cursor.rest ∧ cursor.position = .behind before

/-- A cursor begins in its text. -/
theorem standsIn_ofText (text : String) : (ofText text).StandsIn text.toList := ⟨[], rfl, rfl⟩

/-- A cursor that is led on stays in its text. -/
theorem StandsIn.leads (h : cursor.StandsIn whole) (hleads : cursor.Leads taken after) :
    after.StandsIn whole := by
  obtain ⟨before, hwhole, hposition⟩ := h
  refine ⟨before ++ taken, ?_, ?_⟩
  · rw [hwhole, hleads.rest, List.append_assoc]
  · rw [hleads.position, hposition, Position.afterText_behind]

/-- A position that is reached by reading some of what is left. -/
theorem StandsIn.isIn (h : cursor.StandsIn whole) {rest : List Char}
    (hrest : cursor.rest = taken ++ rest) : (cursor.position.afterText taken).IsIn whole := by
  obtain ⟨before, hwhole, hposition⟩ := h
  refine ⟨before ++ taken, rest, ?_, ?_⟩
  · rw [hwhole, hrest, List.append_assoc]
  · rw [hposition, Position.afterText_behind]

/-! ## Where errors are reported -/

/-- An error in a string is reported at its opening quote, or at a character inside. -/
theorem readString_error {opening : Position} {read : List Char}
    (h : readString opening read text p = (.error e, after)) : e.position = opening ∨
      ∃ inside rest, text = inside ++ rest ∧ e.position = p.afterText inside := by
  fun_induction readString opening read text p with
  | case1 =>
    cases h
    exact .inl rfl
  | case2 => cases h
  | case3 =>
    cases h
    exact .inl rfl
  | case4 read p e' text meant hmeant _ ih =>
    rcases ih h with hopening | ⟨inside, rest, rfl, hposition⟩
    · exact .inl hopening
    · exact .inr ⟨'\\' :: e' :: inside, rest, rfl, hposition⟩
  | case5 read p e' text hmeant =>
    cases h
    exact .inr ⟨['\\'], e' :: text, rfl, rfl⟩
  | case6 read c text p hquote hescape ih =>
    rcases ih h with hopening | ⟨inside, rest, rfl, hposition⟩
    · exact .inl hopening
    · exact .inr ⟨c :: inside, rest, rfl, hposition⟩

/-- What is glued is reported where the lexeme ends. -/
theorem unlessGlued_error {l : Lexeme} (h : unlessGlued l cursor = (.error e, after)) :
    e.position = cursor.position := by
  unfold unlessGlued at h
  split at h
  · split at h
    · cases h
      rfl
    · cases h
  · cases h

/-- An error is reported where the lexeme begins, or at a character that was to belong to it or to
    follow it. -/
theorem readLexeme_error (h : readLexeme ⟨text, p⟩ = (.error e, after)) :
    ∃ before rest, text = before ++ rest ∧ e.position = p.afterText before := by
  cases text with
  | nil => cases h
  | cons c text =>
    have hfirst : ∃ before rest, c :: text = before ++ rest ∧ p = p.afterText before :=
      ⟨[], c :: text, rfl, rfl⟩
    -- what is read up to a clash is led over
    have hglued : ∀ {l : Lexeme} {taken : List Char} {cursor : Cursor},
        Leads ⟨c :: text, p⟩ taken cursor → unlessGlued l cursor = (.error e, after) →
        ∃ before rest, c :: text = before ++ rest ∧ e.position = p.afterText before :=
      fun hleads hclash => ⟨_, _, hleads.rest, (unlessGlued_error hclash).trans hleads.position⟩
    unfold readLexeme at h
    dsimp only at h
    split at h
    · split at h
      · next value cursor hread =>
        obtain ⟨digits, hleads, -⟩ := readDigits_sound (Nat.zero_le _) hread
        exact hglued hleads h
      · cases h
        exact hfirst
    · split at h
      · next hstart =>
        have hhead : (c :: text).head?.any isWordStart = true := hstart
        obtain ⟨word, hleads, -⟩ := readWord_sound (p := p) hhead rfl
        exact hglued hleads h
      · split at h
        · next hquote =>
          subst hquote
          split at h
          · next contents cursor hread =>
            obtain ⟨inside, found, hleads, -⟩ := readString_sound hread
            exact hglued hleads.cons h
          · next found cursor hread =>
            cases h
            rcases readString_error hread with hopening | ⟨inside, rest, rfl, hposition⟩
            · exact hopening ▸ hfirst
            · exact ⟨'"' :: inside, rest, rfl, hposition⟩
        · split at h
          · cases h
          · cases h
            exact hfirst

/-- Every lexical error is reported in the text. -/
theorem StandsIn.scan_error (h : cursor.StandsIn whole)
    (hscan : cursor.scan = (.error e, after)) : e.position.IsIn whole := by
  obtain ⟨gap, hleads, -, -⟩ := skipGap_spec cursor.rest cursor.position
  have hhere := h.leads hleads
  unfold scan at hscan
  dsimp only at hscan
  generalize skipGap cursor.rest cursor.position = here at hhere hscan
  split at hscan
  · cases hscan
  · next found stop hread =>
    cases hscan
    obtain ⟨before, rest, hrest, hposition⟩ := readLexeme_error hread
    rw [hposition]
    exact hhere.isIn hrest

/-- Every token stands in the text. -/
theorem StandsIn.scan {token : Token} (h : cursor.StandsIn whole)
    (hscan : cursor.scan = (.ok token, after)) :
    token.position.IsIn whole ∧ after.StandsIn whole := by
  obtain ⟨gap, hleads, -, hnoGap⟩ := skipGap_spec cursor.rest cursor.position
  have hhere := h.leads hleads
  unfold Cursor.scan at hscan
  dsimp only at hscan
  generalize skipGap cursor.rest cursor.position = here at hhere hscan hnoGap
  split at hscan
  · next l stop hread =>
    cases hscan
    have hfrom : here.rest = [] ++ here.rest := rfl
    refine ⟨hhere.isIn hfrom, ?_⟩
    rcases readLexeme_sound hnoGap hread with ⟨-, hend, rfl⟩ | ⟨spelling, hleads, -⟩
    · have hstays : here.Leads [] ⟨[], here.position⟩ := ⟨hend, rfl⟩
      exact hhere.leads hstays
    · exact hhere.leads hleads
  · cases hscan

end Cursor

/-! ## Token streams -/

namespace TokenStream

variable {stream after : TokenStream}

/-- All that the stream offers comes from the text. -/
structure Within (stream : TokenStream) (text : List Char) : Prop where
  cursor : stream.cursor.StandsIn text
  pending : ∀ token ∈ stream.pending, token.position.IsIn text

/-- A stream of tokens begins within its text. -/
theorem within_ofText (text : String) : (ofText text).Within text.toList :=
  ⟨Cursor.standsIn_ofText text, fun _ h => absurd h List.not_mem_nil⟩

/-- Tokens of the text may be handed back. -/
theorem Within.putBack (h : stream.Within whole) {token : Token}
    (htoken : token.position.IsIn whole) : (stream.putBack token).Within whole :=
  ⟨h.cursor, List.forall_mem_cons.2 ⟨htoken, h.pending⟩⟩

/-- Taking a token stays within the text. -/
theorem Within.next {token : Token} (h : stream.Within whole)
    (hnext : stream.next = (.ok token, after)) : token.position.IsIn whole ∧ after.Within whole := by
  obtain ⟨cursor, pending⟩ := stream
  cases pending with
  | cons first pending =>
    cases hnext
    obtain ⟨hfirst, hrest⟩ := List.forall_mem_cons.1 h.pending
    exact ⟨hfirst, h.cursor, hrest⟩
  | nil =>
    unfold TokenStream.next at hnext
    dsimp only at hnext
    cases hscan : cursor.scan with
    | mk result after =>
      rw [hscan] at hnext
      cases hnext
      obtain ⟨hposition, hafter⟩ := h.cursor.scan hscan
      exact ⟨hposition, hafter, h.pending⟩

theorem Within.error {e : SyntaxError} (h : stream.Within whole)
    (hnext : stream.next = (.error e, after)) : e.position.IsIn whole := by
  obtain ⟨cursor, pending⟩ := stream
  cases pending with
  | cons first pending => cases hnext
  | nil =>
    unfold TokenStream.next at hnext
    dsimp only at hnext
    cases hscan : cursor.scan with
    | mk result after =>
      rw [hscan] at hnext
      cases hnext
      exact h.cursor.scan_error hscan

end TokenStream

end Tao
