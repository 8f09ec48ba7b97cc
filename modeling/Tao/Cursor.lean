/-
  Reading tokens off a text.

  A CURSOR is what is left of a text together with the position reached.  `Cursor.scan` skips the
  gap in front of the next token (blanks and line comments) and reads that token.  The cursor comes
  back in every case: after an error it stands where reading stopped, so that one may go on from
  there.

  A mark of punctuation is the longest spelling that the text begins with.  A number, a word or a
  string may not be glued to a following letter, digit, underscore or quote.
-/
import Tao.SyntaxError

namespace Tao

/-- What is left to read, and the position of its first character. -/
structure Cursor where
  rest : List Char
  position : Position
  deriving DecidableEq, Repr, Inhabited

/-! ## Classes of characters -/

/-- Does this character only separate tokens? -/
def isBlank (c : Char) : Bool := c = ' ' || c = '\t' || c = '\r' || c = '\n'

/-- May a word begin with this character? -/
def isWordStart (c : Char) : Bool := c.isAlpha || c = '_'

/-- May a word go on with this character? -/
def isWordChar (c : Char) : Bool := c.isAlphanum || c = '_'

/-- Does this character clash with a number, word or string right before it? -/
def isFollowClash (c : Char) : Bool := isWordChar c || c = '"'

/-- What the character after a backslash stands for. -/
def unescape : Char → Option Char
  | 'n' => some '\n'
  | 't' => some '\t'
  | 'r' => some '\r'
  | '0' => some '\x00'
  | '"' => some '"'
  | '\\' => some '\\'
  | _ => none

/-- The largest number that can be written. -/
def maxNumber : Nat := 1 <<< 63 - 1

namespace Cursor

/-- The cursor at the beginning of a text. -/
def ofText (text : String) : Cursor := ⟨text.toList, .start⟩

/-! ## Gaps -/

mutual

/-- Skips blanks and comments. -/
def skipGap : List Char → Position → Cursor
  | [], p => ⟨[], p⟩
  | '/' :: '/' :: rest, p => skipLine rest ((p.after '/').after '/')
  | c :: rest, p => if isBlank c then skipGap rest (p.after c) else ⟨c :: rest, p⟩

/-- Skips the rest of a comment, which ends with its line, and then the gap after it. -/
def skipLine : List Char → Position → Cursor
  | [], p => ⟨[], p⟩
  | c :: rest, p =>
    if c = '\n' then skipGap rest (p.after c) else skipLine rest (p.after c)

end

/-! ## Lexemes -/

/-- Reads digits onto `value`; `none` as soon as the number gets too large. -/
def readDigits (value : Nat) : List Char → Position → Option Nat × Cursor
  | [], p => (some value, ⟨[], p⟩)
  | c :: rest, p =>
    if c.isDigit then
      let value := value * 10 + (c.toNat - '0'.toNat)
      if value ≤ maxNumber then readDigits value rest (p.after c) else (none, ⟨rest, p.after c⟩)
    else (some value, ⟨c :: rest, p⟩)

/-- Reads the contents of a string up to its closing quote.  `opening` is the position of the
    opening quote and `read` what was read so far, last character first. -/
def readString (opening : Position) (read : List Char) :
    List Char → Position → Except SyntaxError String × Cursor
  | [], p => (.error ⟨.unterminatedString, opening⟩, ⟨[], p⟩)
  | c :: rest, p =>
    if c = '"' then (.ok (String.ofList read.reverse), ⟨rest, p.after c⟩)
    else if c = '\\' then
      match rest with
      | [] => (.error ⟨.unterminatedString, opening⟩, ⟨[], p.after c⟩)
      | e :: rest =>
        match unescape e with
        | some meant => readString opening (meant :: read) rest ((p.after c).after e)
        | none => (.error ⟨.unknownEscape e, p.after c⟩, ⟨rest, (p.after c).after e⟩)
    else readString opening (c :: read) rest (p.after c)

/-- Reads a word: a keyword or a name. -/
def readWord (text : List Char) (p : Position) : Lexeme × Cursor :=
  let word := text.takeWhile isWordChar
  let lexeme :=
    match Kind.ofWord? (String.ofList word) with
    | some kind => .mark kind
    | none => .name (String.ofList word)
  (lexeme, ⟨text.dropWhile isWordChar, p.afterText word⟩)

/-- The longest mark of punctuation that the text begins with. -/
def longestMark? (text : List Char) : Option Kind :=
  Kind.punctuation.find? (·.spelling.toList.isPrefixOf text)

/-- Accepts a lexeme unless the next character clashes with it. -/
def unlessGlued (lexeme : Lexeme) (after : Cursor) : Except SyntaxError Lexeme × Cursor :=
  match after.rest with
  | c :: _ =>
    if isFollowClash c then (.error ⟨.unexpectedFollow c, after.position⟩, after)
    else (.ok lexeme, after)
  | [] => (.ok lexeme, after)

/-- Reads the lexeme that the cursor stands on. -/
def readLexeme (cursor : Cursor) : Except SyntaxError Lexeme × Cursor :=
  match cursor with
  | ⟨[], p⟩ => (.ok (.mark .eof), ⟨[], p⟩)
  | ⟨c :: rest, p⟩ =>
    if c.isDigit then
      match readDigits 0 (c :: rest) p with
      | (some value, after) => unlessGlued (.number value) after
      | (none, after) => (.error ⟨.numberTooLarge, p⟩, after)
    else if isWordStart c then
      let (lexeme, after) := readWord (c :: rest) p
      unlessGlued lexeme after
    else if c = '"' then
      match readString p [] rest (p.after c) with
      | (.ok contents, after) => unlessGlued (.string contents) after
      | (.error e, after) => (.error e, after)
    else
      match longestMark? (c :: rest) with
      | some kind =>
        let width := kind.spelling.length
        (.ok (.mark kind), ⟨(c :: rest).drop width, p.afterText ((c :: rest).take width)⟩)
      | none => (.error ⟨.unexpectedCharacter c, p⟩, ⟨rest, p.after c⟩)

/-- Reads the next token, and says where reading stopped. -/
def scan (cursor : Cursor) : Except SyntaxError Token × Cursor :=
  let here := skipGap cursor.rest cursor.position
  match here.readLexeme with
  | (.ok lexeme, after) => (.ok ⟨lexeme, here.position⟩, after)
  | (.error e, after) => (.error e, after)

/-- Reads tokens up to and including the end of the text.  The first argument bounds their number;
    the length of the text and one more is enough, because every other token takes a character. -/
def scanAll : Nat → Cursor → Except SyntaxError (List Token)
  | 0, _ => .ok []
  | bound + 1, cursor =>
    match cursor.scan with
    | (.error e, _) => .error e
    | (.ok token, after) =>
      if token.kind = .eof then .ok [token]
      else return token :: (← scanAll bound after)

end Cursor

/-- All tokens of a text, the end of the text included. -/
def tokenize (text : String) : Except SyntaxError (List Token) :=
  (Cursor.ofText text).scanAll (text.length + 1)

end Tao
