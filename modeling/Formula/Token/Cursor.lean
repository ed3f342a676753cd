import Formula.Error

/-!
# Places in a text

A cursor is a position in a text together with the characters from there on. Reading looks at these
characters only, so it cannot depend on what stands before. A position may lie past the end; there
are no characters from there on. The characters are Unicode scalar values, so no text has a lone
surrogate.
-/

namespace Formula

/-- A position and the characters that follow it. -/
structure Cursor where
  pos : Nat
  rest : List Char

namespace Cursor

def ofText (text : String) (pos : Nat) : Cursor := ⟨pos, text.toList.drop pos⟩

def advance (c : Cursor) (n : Nat) : Cursor := ⟨c.pos + n, c.rest.drop n⟩

/-- Past all spaces; no other character is skipped. -/
def skipSpaces (c : Cursor) : Cursor :=
  ⟨c.pos + (c.rest.takeWhile (· = ' ')).length, c.rest.dropWhile (· = ' ')⟩

/-- The next characters, as text. -/
def text (c : Cursor) (n : Nat) : String := String.ofList (c.rest.take n)

/-- An error over the next `n` characters, which quotes them even if there are none. -/
def errorQuoting (c : Cursor) (cause : CompileError.Cause) (n : Nat) : CompileError :=
  ⟨cause, c.pos, c.pos + n, some (c.text n)⟩

/-- An error over the next `n` characters. -/
def error (c : Cursor) (cause : CompileError.Cause) (n : Nat) : CompileError :=
  ⟨cause, c.pos, c.pos + n, if n = 0 then none else some (c.text n)⟩

/-! ## What is left -/

theorem length_advance (c : Cursor) (n : Nat) : (c.advance n).rest.length = c.rest.length - n :=
  List.length_drop

theorem length_skipSpaces_le (c : Cursor) : c.skipSpaces.rest.length ≤ c.rest.length :=
  (List.dropWhile_suffix _).length_le

end Cursor

end Formula
