import Formula.Token.Basic

/-!
# The tokens of a text

A text is a sequence of tokens as far as it goes. The sequence ends where no token of the expected
kind stands, which may be the end of the text, or at a number literal with an error. What the
tokens mean together plays no part here.
-/

namespace Formula

/-- A token with the position of its first character. -/
structure Located where
  token : Token
  start : Nat

/-- Why the sequence of tokens ends. -/
inductive TokenEnd where
  | stopped (expected : Expected) (cursor : Cursor)
  | failed (error : CompileError)

structure Tokens where
  list : List Located
  ending : TokenEnd

namespace Tokens

/-- The tokens from a cursor on. -/
def read (expected : Expected) (c : Cursor) : Tokens :=
  match _h : c.readToken expected with
  | .error e => ⟨[], .failed e⟩
  | .ok (none, c') => ⟨[], .stopped expected c'⟩
  | .ok (some t, c') =>
    let following := read (expected.after t) c'
    ⟨⟨t, c.skipSpaces.pos⟩ :: following.list, following.ending⟩
termination_by c.rest.length
decreasing_by exact Cursor.readToken_length _h

/-- The tokens of a text, which begins with an operand. -/
def ofText (text : String) : Tokens := read .operand (Cursor.ofText text 0)

end Tokens

end Formula
