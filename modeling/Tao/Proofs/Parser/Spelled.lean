/-
  How lexemes are spelled.

  A text SPELLS lexemes if it holds their spellings in order, each with a GAP before it that may be
  empty, and a gap before the end.  A gap is made of blanks and comments.  Where no gap follows,
  what does follow may not be glued to the lexeme: a letter, a digit or a quote to a number, a word
  or a string, and what makes a longer mark or a comment to a mark of punctuation.

  Scanning a text takes the lexemes that it spells, wherever in the text it begins.
-/
import Mathlib.Data.List.Nodup
import Tao.Proofs.Parser.Reads
import Tao.Proofs.Parser.Written

namespace Tao

/-! ## Spellings -/

/-- How a character is written in a string. -/
def escape : Char → List Char
  | '\n' => ['\\', 'n']
  | '\t' => ['\\', 't']
  | '\r' => ['\\', 'r']
  | '\x00' => ['\\', '0']
  | '"' => ['\\', '"']
  | '\\' => ['\\', '\\']
  | c => [c]

/-- How a lexeme is written; the end of the text is not. -/
def Lexeme.spelling : Lexeme → List Char
  | .name text => text.toList
  | .string contents => '"' :: (contents.toList.flatMap escape ++ ['"'])
  | .number value => Nat.toDigits 10 value
  | .mark .eof => []
  | .mark kind => kind.spelling.toList

/-- Can a lexeme be written? -/
def Lexeme.IsLegal : Lexeme → Prop
  | .name text => IsName text
  | .string _ => True
  | .number value => value ≤ maxNumber
  | .mark kind => kind ∈ Kind.punctuation ∨ kind ∈ Kind.keywords

/-- Does a text begin with nothing that may not be glued to a word? -/
def NoClash (rest : List Char) : Prop := ∀ c ∈ rest.head?, isFollowClash c = false

/-- Does a text go on with nothing that makes a longer mark, or a comment, of a mark? -/
structure EndsMark (kind : Kind) (rest : List Char) : Prop where
  longest : ∀ longer ∈ Kind.punctuation,
    longer.spelling.toList <+: kind.spelling.toList ++ rest →
    longer.spelling.length ≤ kind.spelling.length
  noComment : kind = .slash → rest.head? ≠ some '/'

/-- May this text stand right after a lexeme? -/
def Lexeme.EndsBefore : Lexeme → List Char → Prop
  | .mark kind, rest => if kind ∈ Kind.keywords then NoClash rest else EndsMark kind rest
  | .name _, rest | .string _, rest | .number _, rest => NoClash rest

namespace Lexeme

variable {kind : Kind} {rest : List Char}

/-- A mark or a keyword is spelled as its kind is. -/
theorem spelling_mark (h : kind ∈ Kind.punctuation ∨ kind ∈ Kind.keywords) :
    (mark kind).spelling = kind.spelling.toList := by
  cases kind with
  | eof => exact absurd h (by decide)
  | _ => rfl

/-- A keyword ends where no letter follows. -/
theorem EndsBefore.ofKeyword (h : (mark kind).EndsBefore rest) (hkind : kind ∈ Kind.keywords) :
    NoClash rest := by
  simpa only [EndsBefore, if_pos hkind] using h

/-- A mark ends where it cannot be continued. -/
theorem EndsBefore.ofPunctuation (h : (mark kind).EndsBefore rest)
    (hkind : kind ∈ Kind.punctuation) : EndsMark kind rest := by
  have hnot : ∀ kind ∈ Kind.punctuation, kind ∉ Kind.keywords := by decide
  have hnot := hnot kind hkind
  simpa only [EndsBefore, if_neg hnot] using h

end Lexeme

/-- The text is a gap, followed by `rest`. -/
inductive Gap : List Char → List Char → Prop where
  | none {rest} : Gap rest rest
  | blank {c text rest} : isBlank c = true → Gap text rest → Gap (c :: text) rest
  | comment {line text rest} : '\n' ∉ line → Gap text rest →
      Gap ('/' :: '/' :: (line ++ '\n' :: text)) rest
  | lastComment {line} : '\n' ∉ line → Gap ('/' :: '/' :: line) []

/-- The text spells these lexemes, the end of the text included. -/
inductive Spelled : List Lexeme → List Char → Prop where
  | eof {text} : Gap text [] → Spelled [.mark .eof] text
  | lexeme {l ls text rest} : l.IsLegal → l.EndsBefore rest → Gap text (l.spelling ++ rest) →
      Spelled ls rest → Spelled (l :: ls) text

namespace Cursor

variable {text rest : List Char} {p : Position} {c : Char}

/-! ## Gaps -/

/-- A comment is skipped up to the end of its line. -/
theorem skipLine_append {line : List Char} (hline : '\n' ∉ line) (p : Position) :
    ∃ q, skipLine (line ++ '\n' :: text) p = skipGap text q := by
  induction line generalizing p with
  | nil =>
    refine ⟨p.after '\n', ?_⟩
    rw [List.nil_append, skipLine, if_pos rfl]
  | cons c line ih =>
    have hc : c ≠ '\n' := fun hc => hline (hc ▸ List.mem_cons_self)
    obtain ⟨q, hq⟩ := ih (fun hmem => hline (List.mem_cons_of_mem _ hmem)) (p.after c)
    refine ⟨q, ?_⟩
    rw [List.cons_append, skipLine, if_neg hc, hq]

/-- A comment in the last line is skipped to the end of the text. -/
theorem skipLine_all {line : List Char} (hline : '\n' ∉ line) (p : Position) :
    ∃ q, skipLine line p = ⟨[], q⟩ := by
  induction line generalizing p with
  | nil => exact ⟨p, by rw [skipLine]⟩
  | cons c line ih =>
    have hc : c ≠ '\n' := fun hc => hline (hc ▸ List.mem_cons_self)
    obtain ⟨q, hq⟩ := ih (fun hmem => hline (List.mem_cons_of_mem _ hmem)) (p.after c)
    refine ⟨q, ?_⟩
    rw [skipLine, if_neg hc, hq]

/-- Unless a comment begins, a character is a blank or ends the gap. -/
theorem skipGap_cons (hcomment : c = '/' → text.head? ≠ some '/') :
    skipGap (c :: text) p = if isBlank c then skipGap text (p.after c) else ⟨c :: text, p⟩ := by
  refine skipGap.eq_3 p c text fun rest hslash hrest => ?_
  exact hcomment hslash (congrArg List.head? hrest)

/-- A gap is skipped, up to where no gap follows. -/
theorem skipGap_of_gap (h : Gap text rest) (hrest : ∀ p, skipGap rest p = ⟨rest, p⟩)
    (p : Position) : ∃ q, skipGap text p = ⟨rest, q⟩ := by
  induction h generalizing p with
  | none => exact ⟨p, hrest p⟩
  | @blank c text rest hblank _ ih =>
    obtain ⟨q, hq⟩ := ih hrest (p.after c)
    have hcomment : c = '/' → text.head? ≠ some '/' := by
      rintro rfl
      cases hblank
    refine ⟨q, ?_⟩
    rw [skipGap_cons hcomment, if_pos hblank, hq]
  | comment hline _ ih =>
    obtain ⟨q, hq⟩ := skipLine_append hline ((p.after '/').after '/')
    obtain ⟨q', hq'⟩ := ih hrest q
    exact ⟨q', by rw [skipGap, hq, hq']⟩
  | lastComment hline =>
    obtain ⟨q, hq⟩ := skipLine_all hline ((p.after '/').after '/')
    exact ⟨q, by rw [skipGap, hq]⟩

/-! ## Numbers -/

/-- Further digits make no number smaller. -/
theorem le_ofDigitChars (digits : List Char) (value : Nat) :
    value ≤ Nat.ofDigitChars 10 digits value := by
  induction digits generalizing value with
  | nil => exact Nat.le_refl value
  | cons c digits ih =>
    rw [Nat.ofDigitChars_cons]
    exact Nat.le_trans (by omega) (ih _)

/-- Digits are read to the end, as long as they make no number that is too large. -/
theorem readDigits_append {digits : List Char} {value : Nat}
    (hdigits : ∀ c ∈ digits, c.isDigit = true) (hrest : ∀ c ∈ rest.head?, c.isDigit = false)
    (hvalue : Nat.ofDigitChars 10 digits value ≤ maxNumber) (p : Position) :
    ∃ q, readDigits value (digits ++ rest) p =
      (some (Nat.ofDigitChars 10 digits value), ⟨rest, q⟩) := by
  induction digits generalizing value p with
  | nil =>
    cases rest with
    | nil => exact ⟨p, rfl⟩
    | cons c rest =>
      have hc : ¬ c.isDigit = true := by
        rw [hrest c rfl]
        exact Bool.false_ne_true
      refine ⟨p, ?_⟩
      rw [List.nil_append, readDigits, if_neg hc]
      rfl
  | cons c digits ih =>
    have hc : c.isDigit = true := hdigits c List.mem_cons_self
    have hmoved : Nat.ofDigitChars 10 digits (value * 10 + (c.toNat - '0'.toNat)) =
        Nat.ofDigitChars 10 (c :: digits) value := by
      rw [Nat.ofDigitChars_cons, Nat.mul_comm]
    have hsmall : value * 10 + (c.toNat - '0'.toNat) ≤ maxNumber :=
      Nat.le_trans (le_ofDigitChars digits _) (hmoved ▸ hvalue)
    obtain ⟨q, hq⟩ := ih (fun c hmem => hdigits c (List.mem_cons_of_mem _ hmem))
      (hmoved ▸ hvalue) (p.after c)
    refine ⟨q, ?_⟩
    rw [List.cons_append, readDigits, if_pos hc]
    dsimp only
    rw [if_pos hsmall, hq, hmoved]

/-! ## Strings -/

/-- Reading a character that is escaped if need be. -/
theorem readString_escape (opening : Position) (read : List Char) (c : Char) (text : List Char)
    (p : Position) :
    ∃ q, readString opening read (escape c ++ text) p = readString opening (c :: read) text q := by
  unfold escape
  split
  case h_7 =>
    refine ⟨p.after c, ?_⟩
    rw [List.singleton_append, readString.eq_def]
    dsimp only
    rw [if_neg ‹c = '"' → False›, if_neg ‹c = '\\' → False›]
  all_goals exact ⟨_, readString.eq_def ..⟩

/-- A string that was escaped is read as it was.  Induction on its characters. -/
theorem readString_append (opening : Position) (contents read rest : List Char) (p : Position) :
    ∃ q, readString opening read (contents.flatMap escape ++ '"' :: rest) p =
      (.ok (String.ofList (read.reverse ++ contents)), ⟨rest, q⟩) := by
  induction contents generalizing read p with
  | nil =>
    refine ⟨p.after '"', ?_⟩
    rw [List.flatMap_nil, List.nil_append, List.append_nil, readString.eq_def]
    rfl
  | cons c contents ih =>
    obtain ⟨q, hq⟩ := readString_escape opening read c (contents.flatMap escape ++ '"' :: rest) p
    obtain ⟨q', hq'⟩ := ih (c :: read) q
    refine ⟨q', ?_⟩
    rw [List.flatMap_cons, List.append_assoc, hq, hq', List.reverse_cons, List.append_assoc]
    rfl

/-! ## Words -/

/-- A word is read as a whole, and as a keyword if it is one. -/
theorem readWord_append {word : List Char} (hword : ∀ c ∈ word, isWordChar c = true)
    (hrest : ∀ c ∈ rest.head?, isWordChar c = false) (p : Position) :
    readWord (word ++ rest) p =
      (match Kind.ofWord? (String.ofList word) with
        | some kind => .mark kind
        | none => .name (String.ofList word), ⟨rest, p.afterText word⟩) := by
  have hnone : rest.takeWhile isWordChar = [] ∧ rest.dropWhile isWordChar = rest := by
    cases rest with
    | nil => exact ⟨rfl, rfl⟩
    | cons c rest =>
      have hc : ¬ isWordChar c = true := by
        rw [hrest c rfl]
        exact Bool.false_ne_true
      exact ⟨List.takeWhile_cons_of_neg hc, List.dropWhile_cons_of_neg hc⟩
  unfold readWord
  rewrite [List.takeWhile_append_of_pos hword, List.dropWhile_append_of_pos hword, hnone.1, hnone.2,
    List.append_nil]
  rfl

/-! ## Marks -/

/-- No two marks are spelled alike. -/
theorem spelling_injective {kind other : Kind} (hkind : kind ∈ Kind.punctuation)
    (hother : other ∈ Kind.punctuation)
    (h : kind.spelling.toList = other.spelling.toList) : kind = other := by
  have hnodup : (Kind.punctuation.map (·.spelling.toList)).Nodup := by decide
  exact List.inj_on_of_nodup_map hnodup hkind hother h

/-- The first mark that a text begins with is the longest one. -/
theorem longestMark_append {kind : Kind} (hkind : kind ∈ Kind.punctuation)
    (hends : EndsMark kind rest) : longestMark? (kind.spelling.toList ++ rest) = some kind := by
  have hsorted : Kind.punctuation.Pairwise (fun a b => b.spelling.length ≤ a.spelling.length) := by
    decide
  have hbegins : kind.spelling.toList.isPrefixOf (kind.spelling.toList ++ rest) = true :=
    List.isPrefixOf_iff_prefix.2 (List.prefix_append _ _)
  unfold longestMark?
  cases hfound : Kind.punctuation.find?
    (·.spelling.toList.isPrefixOf (kind.spelling.toList ++ rest)) with
  | none =>
    have hnot := List.find?_eq_none.1 hfound kind hkind
    exact absurd hbegins hnot
  | some other =>
    have hother := List.mem_of_find?_eq_some hfound
    have hholds := List.find?_some hfound
    have hotherBegins : other.spelling.toList <+: kind.spelling.toList ++ rest :=
      List.isPrefixOf_iff_prefix.1 hholds
    have hle := hends.longest other hother hotherBegins
    -- No mark after the first that the text begins with is longer.
    have hge : kind.spelling.length ≤ other.spelling.length := by
      obtain ⟨-, before, after, hsplit, hbefore⟩ := List.find?_eq_some_iff_append.1 hfound
      rw [hsplit] at hkind hsorted
      rcases List.mem_append.1 hkind with hmem | hmem
      · have hnot := hbefore kind hmem
        rw [hbegins] at hnot
        cases hnot
      · rcases List.mem_cons.1 hmem with rfl | hmem
        · exact Nat.le_refl _
        · exact List.rel_of_pairwise_cons (List.pairwise_append.1 hsorted).2.1 hmem
    have hequal : other.spelling.toList = kind.spelling.toList := by
      refine (List.prefix_of_prefix_length_le hotherBegins (List.prefix_append _ _) ?_).eq_of_length
        ?_
      · exact hle
      · exact Nat.le_antisymm hle hge
    rw [spelling_injective hother hkind hequal]

/-! ## Lexemes -/

variable {l : Lexeme}

/-- Does a lexeme that begins so begin with neither a digit, a word nor a quote? -/
def beginsMark (c : Char) : Bool := !(c.isDigit || isWordStart c || c = '"')

theorem any_imp {test other : Char → Bool} {o : Option Char} (h : o.any test = true)
    (himp : ∀ c, test c = true → other c = true) : o.any other = true := by
  cases o with
  | none => exact h
  | some c => exact himp c h

theorem any_head_append {test : Char → Bool} (h : text.head?.any test = true) :
    (text ++ rest).head?.any test = true := by
  cases text with
  | nil => cases h
  | cons => exact h

/-- A lexeme is given where nothing is glued to it. -/
theorem unlessGlued_of_noClash (h : NoClash rest) (l : Lexeme) (p : Position) :
    unlessGlued l ⟨rest, p⟩ = (.ok l, ⟨rest, p⟩) := by
  unfold unlessGlued
  cases rest with
  | nil => rfl
  | cons c rest =>
    dsimp only
    rw [h c rfl]
    rfl

/-- What begins a word is no digit, but may stand in one. -/
theorem isDigit_of_isWordStart (h : isWordStart c = true) : c.isDigit = false := by
  unfold isWordStart at h
  rcases Bool.or_eq_true_iff.1 h with halpha | hunderscore
  · unfold Char.isAlpha Char.isUpper Char.isLower at halpha
    unfold Char.isDigit
    grind
  · rw [of_decide_eq_true hunderscore]
    rfl

theorem isWordChar_of_isWordStart (h : isWordStart c = true) : isWordChar c = true := by
  unfold isWordStart at h
  unfold isWordChar Char.isAlphanum
  grind

theorem isWordChar_of_isDigit (h : c.isDigit = true) : isWordChar c = true := by
  unfold isWordChar Char.isAlphanum
  grind

theorem isWordChar_of_noClash (h : NoClash rest) : ∀ c ∈ rest.head?, isWordChar c = false :=
  fun c hc => (Bool.or_eq_false_iff.1 (h c hc)).1

theorem isDigit_of_noClash (h : NoClash rest) : ∀ c ∈ rest.head?, c.isDigit = false := by
  intro c hc
  have hword := isWordChar_of_noClash h c hc
  unfold isWordChar Char.isAlphanum at hword
  grind

/-- A number begins with a digit. -/
theorem any_isDigit_toDigits (value : Nat) :
    (Nat.toDigits 10 value).head?.any Char.isDigit = true := by
  rw [List.head?_eq_some_head Nat.toDigits_ne_nil]
  exact Nat.isDigit_of_mem_toDigits (by decide) (by decide) (List.head_mem _)

/-- The first character tells what is read. -/
theorem readLexeme_digit (hdigit : text.head?.any Char.isDigit = true) {value : Nat}
    {after : Cursor} (hread : readDigits 0 text p = (some value, after)) :
    readLexeme ⟨text, p⟩ = unlessGlued (.number value) after := by
  cases text with
  | nil => cases hdigit
  | cons c text =>
    replace hdigit : c.isDigit = true := hdigit
    unfold readLexeme
    dsimp only
    rw [if_pos hdigit, hread]

theorem readLexeme_word (hstart : text.head?.any isWordStart = true) {l : Lexeme}
    {after : Cursor} (hread : readWord text p = (l, after)) :
    readLexeme ⟨text, p⟩ = unlessGlued l after := by
  cases text with
  | nil => cases hstart
  | cons c text =>
    replace hstart : isWordStart c = true := hstart
    unfold readLexeme
    dsimp only
    rw [isDigit_of_isWordStart hstart, if_neg Bool.false_ne_true, if_pos hstart, hread]

theorem readLexeme_quote {contents : String} {after : Cursor}
    (hread : readString p [] text (p.after '"') = (.ok contents, after)) :
    readLexeme ⟨'"' :: text, p⟩ = unlessGlued (.string contents) after := by
  unfold readLexeme
  dsimp only
  rw [if_neg (by decide), if_neg (by decide), if_pos rfl, hread]

theorem readLexeme_mark (hbegins : text.head?.any beginsMark = true) {kind : Kind}
    (hread : longestMark? text = some kind) :
    readLexeme ⟨text, p⟩ = (.ok (.mark kind), ⟨text.drop kind.spelling.length,
      p.afterText (text.take kind.spelling.length)⟩) := by
  cases text with
  | nil => cases hbegins
  | cons c text =>
    replace hbegins : beginsMark c = true := hbegins
    unfold beginsMark at hbegins
    rw [Bool.not_eq_true', Bool.or_eq_false_iff, Bool.or_eq_false_iff] at hbegins
    obtain ⟨⟨hdigit, hstart⟩, hquote⟩ := hbegins
    unfold readLexeme
    dsimp only
    rw [hdigit, hstart, if_neg Bool.false_ne_true, if_neg Bool.false_ne_true,
      if_neg (of_decide_eq_false hquote), hread]

/-- Each mark begins as marks do. -/
theorem beginsMark_spelling :
    ∀ kind ∈ Kind.punctuation, kind.spelling.toList.head?.any beginsMark = true := by decide

/-- Each keyword is a word. -/
theorem isWord_spelling : ∀ kind ∈ Kind.keywords,
    kind.spelling.toList.head?.any isWordStart = true ∧
      kind.spelling.toList.all isWordChar = true ∧
      Kind.ofWord? (String.ofList kind.spelling.toList) = some kind := by decide

/-- What is spelled is read. -/
theorem readLexeme_spelling (hlegal : l.IsLegal) (hends : l.EndsBefore rest) (p : Position) :
    ∃ q, readLexeme ⟨l.spelling ++ rest, p⟩ = (.ok l, ⟨rest, q⟩) := by
  cases l with
  | name text =>
    obtain ⟨hstart, hword, hkeyword⟩ := hlegal
    have hread := readWord_append hword (isWordChar_of_noClash hends) p
    rw [String.ofList_toList, hkeyword] at hread
    exact ⟨_, (readLexeme_word (any_head_append hstart) hread).trans
      (unlessGlued_of_noClash hends _ _)⟩
  | string contents =>
    obtain ⟨q, hread⟩ := readString_append p contents.toList [] rest (p.after '"')
    have hspelling : (Lexeme.string contents).spelling ++ rest =
        '"' :: (contents.toList.flatMap escape ++ '"' :: rest) := by
      unfold Lexeme.spelling
      rw [List.cons_append, List.append_assoc]
      rfl
    rw [List.reverse_nil, List.nil_append, String.ofList_toList] at hread
    refine ⟨q, ?_⟩
    rw [hspelling, readLexeme_quote hread]
    exact unlessGlued_of_noClash hends _ _
  | number value =>
    have hdigits : ∀ c ∈ Nat.toDigits 10 value, c.isDigit = true :=
      fun c => Nat.isDigit_of_mem_toDigits (by decide) (by decide)
    have hvalue : Nat.ofDigitChars 10 (Nat.toDigits 10 value) 0 = value :=
      Nat.ofDigitChars_toDigits (by decide) (by decide)
    obtain ⟨q, hread⟩ := readDigits_append hdigits (isDigit_of_noClash hends)
      (hvalue.symm ▸ hlegal) p
    rw [hvalue] at hread
    exact ⟨q, (readLexeme_digit (any_head_append (any_isDigit_toDigits value)) hread).trans
      (unlessGlued_of_noClash hends _ _)⟩
  | mark kind =>
    -- punctuation is read as the longest mark, and a keyword as a word
    rcases hlegal with hpunctuation | hkeyword
    · have hread := longestMark_append hpunctuation (hends.ofPunctuation hpunctuation)
      have hmark := readLexeme_mark (p := p)
        (any_head_append (beginsMark_spelling kind hpunctuation)) hread
      rw [← String.length_toList, List.drop_left] at hmark
      rw [Lexeme.spelling_mark (.inl hpunctuation)]
      exact ⟨_, hmark⟩
    · obtain ⟨hstart, hword, hfound⟩ := isWord_spelling kind hkeyword
      have hclash := hends.ofKeyword hkeyword
      have hread := readWord_append (List.all_eq_true.1 hword) (isWordChar_of_noClash hclash) p
      rw [hfound] at hread
      rw [Lexeme.spelling_mark (.inr hkeyword)]
      exact ⟨_, (readLexeme_word (any_head_append hstart) hread).trans
        (unlessGlued_of_noClash hclash _ _)⟩

/-! ## Texts -/

/-- Can no gap begin with this character? -/
def beginsNoGap (c : Char) : Bool := !(isBlank c || c = '/')

/-- No gap begins with any other character. -/
theorem skipGap_of_beginsNoGap (h : text.head?.any beginsNoGap = true) :
    skipGap text p = ⟨text, p⟩ := by
  cases text with
  | nil => rfl
  | cons c text =>
    replace h : beginsNoGap c = true := h
    unfold beginsNoGap at h
    rw [Bool.not_eq_true', Bool.or_eq_false_iff] at h
    have hcomment : c = '/' → text.head? ≠ some '/' :=
      fun hslash => absurd hslash (of_decide_eq_false h.2)
    rw [skipGap_cons hcomment, h.1, if_neg Bool.false_ne_true]

/-- Words begin no gap. -/
theorem beginsNoGap_of_isWordChar (h : isWordChar c = true) : beginsNoGap c = true := by
  have hnot : ∀ d, isWordChar d = false → c ≠ d := by
    rintro d hd rfl
    rw [h] at hd
    cases hd
  unfold beginsNoGap isBlank
  rw [decide_eq_false (hnot ' ' rfl), decide_eq_false (hnot '\t' rfl),
    decide_eq_false (hnot '\r' rfl), decide_eq_false (hnot '\n' rfl),
    decide_eq_false (hnot '/' rfl)]
  rfl

/-- Of all marks only those with a slash may begin a gap. -/
theorem beginsNoGap_spelling : ∀ kind ∈ Kind.punctuation ++ Kind.keywords, kind = .slash ∨
    kind = .slashAssign ∨ kind.spelling.toList.head?.any beginsNoGap = true := by decide

/-- A lexeme does not begin with a gap. -/
theorem skipGap_spelling (hlegal : l.IsLegal) (hends : l.EndsBefore rest) (p : Position) :
    skipGap (l.spelling ++ rest) p = ⟨l.spelling ++ rest, p⟩ := by
  cases l with
  | name text =>
    have hbegins := any_imp hlegal.start fun c hc => beginsNoGap_of_isWordChar
      (isWordChar_of_isWordStart hc)
    exact skipGap_of_beginsNoGap (any_head_append hbegins)
  | string contents => exact skipGap_of_beginsNoGap rfl
  | number value =>
    have hbegins := any_imp (any_isDigit_toDigits value) fun c hc => beginsNoGap_of_isWordChar
      (isWordChar_of_isDigit hc)
    exact skipGap_of_beginsNoGap (any_head_append hbegins)
  | mark kind =>
    rcases beginsNoGap_spelling kind (List.mem_append.2 hlegal) with rfl | rfl | hbegins
    · have hends : EndsMark .slash rest := hends.ofPunctuation (by decide)
      exact skipGap_cons fun _ => hends.noComment rfl
    · exact skipGap_cons fun _ => nofun
    · rw [Lexeme.spelling_mark hlegal]
      exact skipGap_of_beginsNoGap (any_head_append hbegins)

/-- A lexeme that is spelled after a gap is scanned. -/
theorem scan_of_spelled (hlegal : l.IsLegal) (hends : l.EndsBefore rest)
    (hgap : Gap text (l.spelling ++ rest)) (p : Position) :
    ∃ token q, scan ⟨text, p⟩ = (.ok token, ⟨rest, q⟩) ∧ token.lexeme = l := by
  obtain ⟨here, hskip⟩ := skipGap_of_gap hgap (skipGap_spelling hlegal hends) p
  obtain ⟨q, hread⟩ := readLexeme_spelling hlegal hends here
  refine ⟨⟨l, here⟩, q, ?_, rfl⟩
  unfold scan
  dsimp only
  rw [hskip, hread]

end Cursor

variable {l : Lexeme} {ls : List Lexeme} {text rest : List Char}

/-- A stream that begins where lexemes are spelled offers them. -/
theorem Spelled.offers (h : Spelled ls text) (p : Position) :
    (⟨⟨text, p⟩, []⟩ : TokenStream).Offers ls := by
  induction h generalizing p with
  | eof hgap =>
    obtain ⟨q, hskip⟩ := Cursor.skipGap_of_gap hgap (fun _ => rfl) p
    refine ⟨⟨.mark .eof, q⟩, ⟨⟨[], q⟩, []⟩, ?_, rfl, trivial⟩
    unfold TokenStream.next Cursor.scan
    dsimp only
    rw [hskip]
    rfl
  | lexeme hlegal hends hgap _ ih =>
    obtain ⟨token, q, hscan, htoken⟩ := Cursor.scan_of_spelled hlegal hends hgap p
    refine ⟨token, _, ?_, htoken, ih q⟩
    unfold TokenStream.next
    dsimp only
    rw [hscan]

/-! ## How long texts are -/

/-- A gap makes a text no shorter. -/
theorem Gap.length_le (h : Gap text rest) : rest.length ≤ text.length := by
  induction h with
  | none => exact Nat.le_refl _
  | blank _ _ ih =>
    rw [List.length_cons]
    omega
  | comment _ _ ih =>
    simp only [List.length_cons, List.length_append]
    omega
  | lastComment => exact Nat.zero_le _

theorem Lexeme.IsLegal.length_pos (h : l.IsLegal) : 0 < l.spelling.length := by
  have hmarks : ∀ kind ∈ Kind.punctuation ++ Kind.keywords, 0 < kind.spelling.toList.length := by
    decide
  cases l with
  | name text =>
    refine List.length_pos_of_ne_nil fun hnil => ?_
    have hstart := h.start
    rw [show text.toList = [] from hnil] at hstart
    cases hstart
  | string contents => exact Nat.zero_lt_succ _
  | number value => exact Nat.length_toDigits_pos
  | mark kind =>
    rw [Lexeme.spelling_mark h]
    exact hmarks kind (List.mem_append.2 h)

/-- Every lexeme but the end of the text takes a character. -/
theorem Spelled.length_le (h : Spelled ls text) : ls.length ≤ text.length + 1 := by
  induction h with
  | eof => exact Nat.succ_le_succ (Nat.zero_le _)
  | lexeme hlegal _ hgap _ ih =>
    have hlength := hgap.length_le
    have hpos := hlegal.length_pos
    rw [List.length_append] at hlength
    rw [List.length_cons]
    omega

/-! ## Blanks -/

/-- Does a text begin with a blank, if with anything? -/
def BeginsBlank (rest : List Char) : Prop := ∀ c ∈ rest.head?, isBlank c = true

/-- A blank is glued to nothing. -/
theorem noClash_of_beginsBlank (h : BeginsBlank rest) : NoClash rest := by
  have hall : ∀ c, isBlank c = true → isFollowClash c = false := by
    intro c hc
    unfold isBlank at hc
    simp only [Bool.or_eq_true, decide_eq_true_eq] at hc
    rcases hc with ((rfl | rfl) | rfl) | rfl <;> rfl
  exact fun c hc => hall c (h c hc)

/-- A blank continues no mark. -/
theorem endsMark_of_beginsBlank (kind : Kind) (h : BeginsBlank rest) : EndsMark kind rest := by
  have hnoBlank : ∀ kind ∈ Kind.punctuation, kind.spelling.toList.any isBlank = false := by decide
  constructor
  · intro longer hlonger hbegins
    refine Nat.le_of_not_lt fun hlength => ?_
    rw [← String.length_toList, ← String.length_toList] at hlength
    -- A longer mark would have the blank in it.
    obtain ⟨more, hmore⟩ : kind.spelling.toList <+: longer.spelling.toList :=
      List.prefix_of_prefix_length_le (List.prefix_append _ _) hbegins (Nat.le_of_lt hlength)
    rw [← hmore] at hbegins hlength
    cases more with
    | nil => simp at hlength
    | cons c more =>
      obtain ⟨tail, htail⟩ := (List.prefix_append_right_inj _).1 hbegins
      have hhead : rest.head? = some c := by
        rw [← htail]
        rfl
      have hmem : c ∈ longer.spelling.toList := by
        rw [← hmore]
        simp
      exact List.any_eq_false.1 (hnoBlank longer hlonger) c hmem (h c hhead)
  · intro _ hslash
    have hblank := h '/' hslash
    cases hblank

/-- A blank may stand after every lexeme, and so may the end of the text. -/
theorem Lexeme.IsLegal.endsBefore_of_beginsBlank (h : l.IsLegal) (hrest : BeginsBlank rest) :
    l.EndsBefore rest := by
  have hclash := noClash_of_beginsBlank hrest
  cases l with
  | name text => exact hclash
  | string contents => exact hclash
  | number value => exact hclash
  | mark kind =>
    simp only [EndsBefore]
    split
    · exact hclash
    · exact endsMark_of_beginsBlank kind hrest

/-! ## What is written can be spelled -/

/-- Is this the kind of lexemes that are written in one way? -/
def Kind.isMark : Kind → Bool
  | .eof | .identifier | .string | .number => false
  | _ => true

namespace Kind

variable {kind operator : Kind}

/-- Marks can be written. -/
theorem isLegal_of_isMark (h : kind.isMark = true) : (Lexeme.mark kind).IsLegal := by
  have hmem : kind ∈ punctuation ++ keywords := by
    cases kind <;> first | decide | cases h
  exact List.mem_append.1 hmem

/-- Operators of all sorts are marks. -/
theorem isMark_of_isPrefix (h : kind.isPrefix = true) : kind.isMark = true := by
  cases kind <;> first | rfl | cases h

theorem isMark_of_isStep (h : kind.isStep = true) : kind.isMark = true := by
  cases kind <;> first | rfl | cases h

theorem isMark_of_isBinary (h : kind.isBinary = true) : kind.isMark = true := by
  cases kind <;> first | rfl | cases h

theorem isMark_of_assignOperator (h : kind.assignOperator? = some operator) :
    kind.isMark = true := by
  cases kind <;> first | rfl | cases h

end Kind

/-- Lexemes that can be written, up to the end of the text. -/
inductive Writable : List Lexeme → Prop where
  | eof : Writable [.mark .eof]
  | lexeme {first more} : first.IsLegal → Writable more → Writable (first :: more)

namespace Writable

variable {kind : Kind} {x : String}

theorem mark (hls : Writable ls) (h : kind.isMark = true) : Writable (.mark kind :: ls) :=
  .lexeme (Kind.isLegal_of_isMark h) hls

theorem name (hls : Writable ls) (h : IsName x) : Writable (.name x :: ls) := .lexeme h hls

theorem string (hls : Writable ls) : Writable (.string x :: ls) := .lexeme trivial hls

/-- No number is too large to be written. -/
theorem number (hls : Writable ls) {n : Int64} : Writable (.number n.toNatClampNeg :: ls) :=
  .lexeme (Nat.le_sub_one_of_lt (Int64.toNatClampNeg_lt n)) hls

theorem key (hls : Writable ls) (h : l.IsKey x) : Writable (l :: ls) := by
  cases h with
  | quoted => exact hls.string
  | bare h => exact hls.name h

end Writable

/-- What can be written after a phrase if the phrase can be: nothing after a script, and only after
    a closing mark that is one. -/
def Phrase.MayPrecede : Phrase → List Lexeme → Prop
  | .script _, o => o = []
  | .arguments closing _, o => closing.isMark = true ∧ Writable o
  | _, o => Writable o

/-- What is written can be spelled. -/
theorem Written.writable {phrase : Phrase} {i o : List Lexeme} (h : Written phrase i o)
    (ho : phrase.MayPrecede o) : Writable i := by
  induction h with
  -- a single lexeme, or none
  | nil | isTrue | isFalse | noEntries | noParams | blockEnd | empty | noInit | groupsEnd =>
    exact ho.mark rfl
  | noArguments => exact ho.2.mark ho.1
  | number _ _ => exact ho.number
  | string => exact ho.string
  | name hx => exact ho.name hx
  | scriptEnd =>
    obtain rfl := ho
    exact .eof
  | noClause | forever | groupEnd => exact ho
  -- lexemes that hold no other phrase
  | lastParam hx | bareHead hx | undefined hx => exact (ho.mark rfl).name hx
  | giveNothing | leave => exact (ho.mark rfl).mark rfl
  -- a mark before a phrase
  | construct _ _ ihe ihes => exact (ihe ((ihes ⟨rfl, ho⟩).mark rfl)).mark rfl
  | array _ ih => exact (ih ⟨rfl, ho⟩).mark rfl
  | bareConstruct _ ih | function _ ih | object _ _ ih | define _ ih | functionStatement _ ih
  | block _ ih | branch _ ih | someInit _ ih => exact (ih ho).mark rfl
  | unary hoperator _ ih => exact (ih ho).mark (Kind.isMark_of_isPrefix hoperator)
  | stepBefore hoperator _ ih => exact (ih ho).mark (Kind.isMark_of_isStep hoperator)
  | enclosed _ ih | giveBack _ ih | head _ ih => exact (ih (ho.mark rfl)).mark rfl
  | param hx _ ih => exact ((ih ho).mark rfl).name hx
  | defined hx _ ih => exact ((ih (ho.mark rfl)).mark rfl).name hx
  -- one phrase
  | stepAfter hoperator _ ih => exact ih (ho.mark (Kind.isMark_of_isStep hoperator))
  | member hx _ ih => exact ih ((ho.name hx).mark rfl)
  | lastArgument _ ih => exact ih (ho.2.mark ho.1)
  | lastEntry hl _ ih => exact ((ih (ho.mark rfl)).mark rfl).key hl
  | expression _ ih | lastLabel _ ih => exact ih (ho.mark rfl)
  | someClause _ ih | testOnly _ ih => exact ih ho
  -- one phrase after another
  | binary hoperator _ _ ihl ihr => exact ihl ((ihr ho).mark (Kind.isMark_of_isBinary hoperator))
  | operatorAssign hoperator _ _ iht ihv =>
    exact iht ((ihv ho).mark (Kind.isMark_of_assignOperator hoperator))
  | conditional _ _ _ ihe ihl ihr => exact ihe ((ihl ((ihr ho).mark rfl)).mark rfl)
  | call _ _ ihe ihes => exact ihe ((ihes ⟨rfl, ho⟩).mark rfl)
  | argument _ _ ihe ihes => exact ihe ((ihes ho).mark rfl)
  | index _ _ iht ihv => exact iht ((ihv (ho.mark rfl)).mark rfl)
  | entry hl _ _ ihe ihs => exact ((ihe ((ihs ho).mark rfl)).mark rfl).key hl
  | assign _ _ ih ih' | lambdaBlock _ _ _ ih ih' | label _ _ ih ih' | noElse _ _ _ ih ih' =>
    exact ih ((ih' ho).mark rfl)
  | lambda _ _ _ ih ih' | blockStatement _ _ ih ih' | groupStatement _ _ ih ih'
  | scriptStatement _ _ _ ih ih' => exact ih (ih' ho)
  | named hx _ _ _ ih ih' => exact ((ih ((ih' ho).mark rfl)).mark rfl).name hx
  | anonymous _ _ _ ih ih' | loop _ _ ih ih' | choose _ _ ih ih' =>
    exact (ih ((ih' ho).mark rfl)).mark rfl
  | default _ _ ih ih' => exact ((ih (ih' ho)).mark rfl).mark rfl
  | elseBlock _ _ _ ihe ihthen ihelse | elseIf _ _ _ ihe ihthen ihelse =>
    exact ihe ((ihthen (((ihelse ho).mark rfl).mark rfl)).mark rfl)
  | header _ _ _ ihinit ihtest ihincrement =>
    exact (ihinit (ihtest ((ihincrement (ho.mark rfl)).mark rfl))).mark rfl
  | bareHeader _ _ _ ihinit ihtest ihincrement =>
    exact ihinit (ihtest ((ihincrement ho).mark rfl))
  | group _ _ _ ihlabels ihbody ihgroups => exact (ihlabels (ihbody (ihgroups ho))).mark rfl

/-- A text with a blank before every lexeme, and one before its end. -/
def withBlanks (ls : List Lexeme) : List Char := ls.flatMap fun l => ' ' :: l.spelling

/-- What can be written is spelled by the text with blanks. -/
theorem Writable.spelled (h : Writable ls) : Spelled ls (withBlanks ls) := by
  induction h with
  | eof => exact .eof (.blank rfl .none)
  | @lexeme l ls hlegal hrest ih =>
    have hbegins : ∃ rest, withBlanks ls = ' ' :: rest := by
      cases hrest with
      | eof => exact ⟨_, rfl⟩
      | lexeme => exact ⟨_, rfl⟩
    obtain ⟨rest, hblank⟩ := hbegins
    have hbegins : BeginsBlank (withBlanks ls) := by
      rw [hblank]
      rintro c ⟨⟩
      rfl
    have hends : l.EndsBefore (withBlanks ls) := hlegal.endsBefore_of_beginsBlank hbegins
    exact .lexeme hlegal hends (.blank rfl .none) ih

end Tao
