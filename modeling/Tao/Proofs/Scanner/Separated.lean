/-
  Scanning undoes writing.

  Lexemes are WRITTEN OUT as their spellings with a separator between any two: a blank, and after it
  blanks and comments in any order, where a comment ends with its line.  Nothing is lost by that.
  Whatever lexemes these are, be they names that begin with a keyword, strings with quotes and
  newlines in them or marks that would make a longer one together, the text is accepted and its
  tokens are those lexemes.
-/
import Tao.Proofs.Parser.Spelled

namespace Tao

/-- Blanks and comments, each comment with the newline that ends it. -/
inductive Filler : List Char → Prop where
  | nil : Filler []
  | blank {c run} : isBlank c = true → Filler run → Filler (c :: run)
  | comment {line run} : '\n' ∉ line → Filler run → Filler ('/' :: '/' :: (line ++ '\n' :: run))

/-- The spellings of lexemes that can be written, with a separator between any two. -/
inductive WrittenOut : List Lexeme → List Char → Prop where
  | nil : WrittenOut [] []
  | last {l} : l.IsLegal → WrittenOut [l] l.spelling
  | before {l next ls blank run text} : l.IsLegal → isBlank blank = true → Filler run →
      WrittenOut (next :: ls) text →
      WrittenOut (l :: next :: ls) (l.spelling ++ (blank :: run ++ text))

variable {ls : List Lexeme} {text run rest : List Char} {p : Position}

/-- A filler is a gap before whatever follows. -/
theorem Filler.gap (h : Filler run) (rest : List Char) : Gap (run ++ rest) rest := by
  induction h with
  | nil => exact .none
  | blank hblank _ ih => exact .blank hblank ih
  | @comment line run hline _ ih =>
    have hgap := Gap.comment hline ih
    rw [List.cons_append, List.cons_append, List.append_assoc]
    exact hgap

/-- What is written out is spelled, a gap before it or not, up to the end of the text. -/
theorem WrittenOut.spelled (h : WrittenOut ls text) {whole : List Char} (hgap : Gap whole text) :
    Spelled (ls ++ [.mark .eof]) whole := by
  induction h generalizing whole with
  | nil => exact .eof hgap
  | @last l hlegal =>
    have hends : l.EndsBefore [] := hlegal.endsBefore_of_beginsBlank nofun
    rw [← List.append_nil l.spelling] at hgap
    exact .lexeme hlegal hends hgap (.eof .none)
  | @before l next ls blank run text hlegal hblank hrun _ ih =>
    have hbegins : BeginsBlank (blank :: run ++ text) := by
      rintro c ⟨⟩
      exact hblank
    have hends := hlegal.endsBefore_of_beginsBlank hbegins
    have hseparator : Gap (blank :: run ++ text) text := .blank hblank (hrun.gap text)
    exact .lexeme hlegal hends hgap (ih hseparator)

/-- The end of the text cannot be written. -/
theorem Lexeme.IsLegal.kind_ne_eof {l : Lexeme} (h : l.IsLegal) : l.kind ≠ .eof := by
  cases l with
  | mark kind =>
    rintro ⟨⟩
    have hnot : ¬ (Kind.eof ∈ Kind.punctuation ∨ Kind.eof ∈ Kind.keywords) := by decide
    exact hnot h
  | _ => nofun

/-- Where lexemes are spelled they are scanned, to the last one. -/
theorem Spelled.scanAll (h : Spelled ls text) {bound : Nat} (hbound : ls.length ≤ bound)
    (p : Position) :
    ∃ tokens, Cursor.scanAll bound ⟨text, p⟩ = .ok tokens ∧ tokens.map (·.lexeme) = ls := by
  induction h generalizing bound p with
  | @eof text hgap =>
    obtain ⟨q, hskip⟩ := Cursor.skipGap_of_gap hgap (fun _ => rfl) p
    cases bound with
    | zero => exact absurd hbound (by simp)
    | succ bound =>
      refine ⟨[⟨.mark .eof, q⟩], ?_, rfl⟩
      unfold Cursor.scanAll Cursor.scan
      dsimp only
      rw [hskip]
      rfl
  | @lexeme l ls text rest hlegal hends hgap _ ih =>
    obtain ⟨token, q, hscan, htoken⟩ := Cursor.scan_of_spelled hlegal hends hgap p
    cases bound with
    | zero => exact absurd hbound (by simp)
    | succ bound =>
      obtain ⟨tokens, htokens, hls⟩ := ih (Nat.le_of_succ_le_succ hbound) q
      have hkind : token.kind ≠ .eof := by
        unfold Token.kind
        rw [htoken]
        exact hlegal.kind_ne_eof
      refine ⟨token :: tokens, ?_, ?_⟩
      · unfold Cursor.scanAll
        rw [hscan]
        dsimp only
        rw [if_neg hkind, htokens]
        rfl
      · rw [List.map_cons, htoken, hls]

/-- **Scanning undoes writing.**  The spellings of any lexemes that can be written, separated by
    blanks and comments that begin with a blank, are accepted, and the tokens are these lexemes in
    their order and one end of the text. -/
theorem tokenize_of_writtenOut (h : WrittenOut ls text) : ∃ tokens,
    tokenize (String.ofList text) = .ok tokens ∧
      tokens.map (·.lexeme) = ls ++ [.mark .eof] := by
  have hspelled := h.spelled .none
  have hbound : (ls ++ [Lexeme.mark .eof]).length ≤ (String.ofList text).length + 1 := by
    rw [String.length_ofList]
    exact hspelled.length_le
  unfold tokenize Cursor.ofText
  rw [String.toList_ofList]
  exact hspelled.scanAll hbound .start

/-- A name that begins with a keyword, a comment between two slashes, the largest number, and a
    string of characters that are escaped, which stands before a keyword. -/
theorem tokenize_of_writtenOut_elsewhere : ∃ text : String,
    text = "elsewhere /\t// slash\n / 9223372036854775807\n\"\\\"\\\\\\n\\0\" else" ∧
    WrittenOut [.name "elsewhere", .mark .slash, .mark .slash, .number maxNumber,
      .string "\"\\\n\x00", .mark .kwElse] text.toList ∧
    ∃ tokens, tokenize (String.ofList text.toList) = .ok tokens ∧ tokens.map (·.lexeme) =
      [.name "elsewhere", .mark .slash, .mark .slash, .number maxNumber,
        .string "\"\\\n\x00", .mark .kwElse] ++ [.mark .eof] := by
  have hword : IsName "elsewhere" := by decide
  have hname : (Lexeme.name "elsewhere").IsLegal := hword
  have hslash : (Lexeme.mark .slash).IsLegal := .inl (by decide)
  have hnumber : (Lexeme.number maxNumber).IsLegal := Nat.le_refl maxNumber
  have hstring : (Lexeme.string "\"\\\n\x00").IsLegal := trivial
  have helse : (Lexeme.mark .kwElse).IsLegal := .inr (by decide)
  have hcomment : Filler ('/' :: '/' :: (" slash".toList ++ '\n' :: [' '])) :=
    .comment (by decide) (.blank rfl .nil)
  have hwritten : WrittenOut [.name "elsewhere", .mark .slash, .mark .slash, .number maxNumber,
      .string "\"\\\n\x00", .mark .kwElse]
      "elsewhere /\t// slash\n / 9223372036854775807\n\"\\\"\\\\\\n\\0\" else".toList :=
    .before hname rfl .nil <| .before hslash rfl hcomment <| .before hslash rfl .nil <|
      .before hnumber rfl .nil <| .before hstring rfl .nil <| .last helse
  exact ⟨_, rfl, hwritten, tokenize_of_writtenOut hwritten⟩

end Tao
