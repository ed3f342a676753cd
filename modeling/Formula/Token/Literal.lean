import Formula.Double.Decimal
import Formula.Token.Cursor

/-!
# Number literals

A literal is a mantissa and perhaps an exponent. The mantissa is digits, perhaps with a point and
further digits behind it; the exponent is `e` or `E`, perhaps a sign, and digits. All digits are
ASCII.

Reading first takes the longest piece that has the parts of a literal, each of them with as many
digits as there are, even none. Then it looks whether a part lacks its digits.
-/

namespace Formula

def isDigit (c : Char) : Bool := '0' ≤ c && c ≤ '9'

def digitValue (c : Char) : Nat := c.toNat - 0x30

/-- The number that a digit string writes. -/
def digitsValue (cs : List Char) : Nat := cs.foldl (fun n c => n * 10 + digitValue c) 0

/-- The parts of the longest piece: what follows the point if there is one, and the exponent with
its marker, sign and digits if there is one. -/
structure Literal where
  whole : List Char
  fraction : Option (List Char)
  exponent : Option (Char × Option Char × List Char)

namespace Literal

/-! ## The longest piece -/

/-- Digits, and what follows them. -/
def digits (cs : List Char) : List Char × List Char :=
  (cs.takeWhile isDigit, cs.dropWhile isDigit)

def readFraction : List Char → Option (List Char) × List Char
  | '.' :: cs => (some (digits cs).1, (digits cs).2)
  | cs => (none, cs)

def readSign : List Char → Option Char × List Char
  | '+' :: cs => (some '+', cs)
  | '-' :: cs => (some '-', cs)
  | cs => (none, cs)

def readExponent : List Char → Option (Char × Option Char × List Char)
  | c :: cs =>
    if c = 'e' ∨ c = 'E' then
      let (sign, cs) := readSign cs
      some (c, sign, (digits cs).1)
    else none
  | [] => none

def read (cs : List Char) : Literal :=
  let (whole, cs) := digits cs
  let (fraction, cs) := readFraction cs
  ⟨whole, fraction, readExponent cs⟩

/-- The characters of the mantissa. -/
def mantissa (l : Literal) : List Char :=
  l.whole ++ match l.fraction with
    | none => []
    | some ds => '.' :: ds

/-- The characters of the whole piece. -/
def spelling (l : Literal) : List Char :=
  l.mantissa ++ match l.exponent with
    | none => []
    | some (marker, sign, ds) => marker :: sign.toList ++ ds

/-! ## The value -/

def exponentValue (l : Literal) : Int :=
  match l.exponent with
  | none => 0
  | some (_, some '-', ds) => -(digitsValue ds : Int)
  | some (_, _, ds) => digitsValue ds

/-- The decimal that the literal writes. -/
def decimal (l : Literal) : Decimal :=
  let fraction := l.fraction.getD []
  ⟨digitsValue (l.whole ++ fraction), l.exponentValue - fraction.length⟩

/-- The nearest double. -/
def value (l : Literal) : Double := .num false l.decimal.toMagnitude

/-! ## What is missing -/

/-- The first part that lacks its digits, with the length of the piece up to there; then whether the
value is in range. -/
def fault? (l : Literal) : Option (CompileError.Cause × Nat) :=
  if l.fraction = some [] then some (.digitAfterPoint, l.mantissa.length)
  else if l.exponent.any fun e => e.2.2 = [] then some (.digitInExponent, l.spelling.length)
  else if l.mantissa = [] then some (.noNumber (String.ofList l.spelling), l.spelling.length)
  else if l.value.isInfinite then
    some (.numberOutOfRange (String.ofList l.spelling), l.spelling.length)
  else none

end Literal

/-- Reads the literal at a cursor: its value, and the cursor behind it. -/
def Cursor.readNumber (c : Cursor) : Except CompileError (Double × Cursor) :=
  let l := Literal.read c.rest
  match l.fault? with
  | some (cause, n) => .error (c.errorQuoting cause n)
  | none => .ok (l.value, c.advance l.spelling.length)

/-! ## Digits first, or a point -/

/-- Whether a literal begins with the character. -/
def startsNumber (c : Char) : Bool := isDigit c || c = '.'

theorem Literal.spelling_ne_nil_of_starts {c : Char} (cs : List Char) (h : startsNumber c) :
    0 < (Literal.read (c :: cs)).spelling.length := by
  unfold startsNumber at h
  by_cases hd : isDigit c
  · simp [Literal.read, Literal.digits, Literal.spelling, Literal.mantissa, hd]
  · have hp : c = '.' := by simpa [hd] using h
    subst hp
    simp [Literal.read, Literal.digits, Literal.spelling, Literal.mantissa, Literal.readFraction,
      hd]

end Formula
