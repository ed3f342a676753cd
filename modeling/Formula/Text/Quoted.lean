import Formula.Text.Printable

/-!
# Quoted text

A text is quoted so that it can stand in one line: between single quotes, or between double quotes
if it holds a single quote and no double quote. The quote in use, the backslash and every character
that is not printable are written as escapes. Lone surrogates, which would be written so as well,
are no characters and do not occur.
-/

namespace Formula.Text

/-- The digit of a value below 16, in lower case. -/
def hexDigit (d : Nat) : Char :=
  if d < 10 then Char.ofNat (0x30 + d) else Char.ofNat (0x57 + d)

/-- The last `width` hexadecimal digits of a number. -/
def hexDigits (n : Nat) : Nat → List Char
  | 0 => []
  | width + 1 => hexDigits (n / 16) width ++ [hexDigit (n % 16)]

/-- The quote that needs no escape, if there is one. -/
def quoteFor (s : List Char) : Char :=
  if s.contains '\'' && !s.contains '"' then '"' else '\''

/-- Line feed, carriage return and tab have escapes of their own; the other characters that are not
printable are given by their code point in two, four or eight digits. -/
def escape (quote c : Char) : List Char :=
  if c = quote ∨ c = '\\' then ['\\', c]
  else if c = '\n' then ['\\', 'n']
  else if c = '\r' then ['\\', 'r']
  else if c = '\t' then ['\\', 't']
  else if isPrintable c then [c]
  else if c.toNat < 0x100 then '\\' :: 'x' :: hexDigits c.toNat 2
  else if c.toNat < 0x10000 then '\\' :: 'u' :: hexDigits c.toNat 4
  else '\\' :: 'U' :: hexDigits c.toNat 8

def quotedChars (s : List Char) : List Char :=
  let quote := quoteFor s
  quote :: s.flatMap (escape quote) ++ [quote]

/-- The text between quotes. -/
def quoted (s : String) : String := String.ofList (quotedChars s.toList)

/-- A list of texts between brackets. -/
def quotedList (names : List String) : String :=
  "[" ++ String.intercalate ", " (names.map quoted) ++ "]"

/-- A row of texts between parentheses; a single one is followed by a comma. -/
def quotedTuple : List String → String
  | [name] => "(" ++ quoted name ++ ",)"
  | names => "(" ++ String.intercalate ", " (names.map quoted) ++ ")"

end Formula.Text
