/-
  Token streams that take tokens back.

  A token stream is a cursor and a stack of tokens that were handed back.  Tokens come from the
  stack first, most recently handed back first, so handing several tokens back in reverse order
  restores the stream as it was.
-/
import Tao.Cursor

namespace Tao

/-- A cursor and the tokens handed back to it, next one first. -/
structure TokenStream where
  cursor : Cursor
  pending : List Token
  deriving Repr, Inhabited

namespace TokenStream

/-- The token stream at the beginning of a text. -/
def ofText (text : String) : TokenStream := ⟨.ofText text, []⟩

/-- Takes the next token. -/
def next (stream : TokenStream) : Except SyntaxError Token × TokenStream :=
  match stream.pending with
  | token :: pending => (.ok token, { stream with pending })
  | [] =>
    let (result, cursor) := stream.cursor.scan
    (result, { stream with cursor })

/-- Hands a token back. -/
def putBack (stream : TokenStream) (token : Token) : TokenStream :=
  { stream with pending := token :: stream.pending }

/-- Looks at the next token without taking it. -/
def peek (stream : TokenStream) : Except SyntaxError Token × TokenStream :=
  match stream.next with
  | (.ok token, after) => (.ok token, after.putBack token)
  | (.error e, after) => (.error e, after)

/-- How many characters and pending tokens are left: a bound on the tokens to come before the end
    of the text repeats. -/
def remaining (stream : TokenStream) : Nat :=
  stream.pending.length + stream.cursor.rest.length

end TokenStream

end Tao
