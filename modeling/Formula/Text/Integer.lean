/-!
# Integers as people write them

An integer is an optional sign and decimal digits, with blanks around. The digits may be those of
any script, and one underscore may stand between two of them. There is a limit to their number.
-/

namespace Formula.Text

/-- The zeros of the scripts that have decimal digits; the other nine digits follow each of them. -/
def scriptZeros : List Nat :=
  [0x30, 0x660, 0x6f0, 0x7c0, 0x966, 0x9e6, 0xa66, 0xae6, 0xb66, 0xbe6, 0xc66, 0xce6, 0xd66, 0xde6,
   0xe50, 0xed0, 0xf20, 0x1040, 0x1090, 0x17e0, 0x1810, 0x1946, 0x19d0, 0x1a80, 0x1a90, 0x1b50,
   0x1bb0, 0x1c40, 0x1c50, 0xa620, 0xa8d0, 0xa900, 0xa9d0, 0xa9f0, 0xaa50, 0xabf0, 0xff10, 0x104a0,
   0x10d30, 0x11066, 0x110f0, 0x11136, 0x111d0, 0x112f0, 0x11450, 0x114d0, 0x11650, 0x116c0,
   0x11730, 0x118e0, 0x11950, 0x11c50, 0x11d50, 0x11da0, 0x16a60, 0x16ac0, 0x16b50, 0x1d7ce,
   0x1d7d8, 0x1d7e2, 0x1d7ec, 0x1d7f6, 0x1e140, 0x1e2f0, 0x1e950, 0x1fbf0]

/-- The value of a decimal digit of any script. -/
def digitValue? (c : Char) : Option Nat :=
  (scriptZeros.find? fun z => z ≤ c.toNat && c.toNat < z + 10).map fun z => c.toNat - z

/-- Blanks around an integer: the ASCII ones from tab to carriage return, the space, and the blanks
of Unicode above ASCII. -/
def isBlank (c : Char) : Bool :=
  let n := c.toNat
  (0x09 ≤ n && n ≤ 0x0d) || n == 0x20 || n == 0x85 || n == 0xa0 || n == 0x1680
    || (0x2000 ≤ n && n ≤ 0x200a) || n == 0x2028 || n == 0x2029 || n == 0x202f || n == 0x205f
    || n == 0x3000

/-- Why a text is not read as an integer: it is not written as one, or it has too many digits. -/
inductive IntegerError where
  | malformed
  | tooLong (digits : Nat)
  deriving DecidableEq

/-- How many digits an integer has at most; zeros in front count. -/
def digitLimit : Nat := 4300

/-- Digits with the value read so far; an underscore must stand between two digits. -/
def digitsValue? : Nat → List Char → Option Nat
  | acc, [] => some acc
  | acc, '_' :: c :: rest =>
    match digitValue? c with
    | some d => digitsValue? (acc * 10 + d) rest
    | none => none
  | acc, c :: rest =>
    match digitValue? c with
    | some d => digitsValue? (acc * 10 + d) rest
    | none => none

/-- A digit, and then digits and underscores. -/
def natural? : List Char → Option Nat
  | [] => none
  | c :: rest =>
    match digitValue? c with
    | some d => digitsValue? d rest
    | none => none

def isDigitOrUnderscore (c : Char) : Bool := c = '_' || (digitValue? c).isSome

/-- An integer without sign. The digits are counted before it is asked what follows them. -/
def natural (cs : List Char) : Except IntegerError Nat :=
  let number := cs.takeWhile isDigitOrUnderscore
  let digits := number.countP (· ≠ '_')
  match natural? number with
  | none => .error .malformed
  | some n =>
    if digitLimit < digits then .error (.tooLong digits)
    else if cs.dropWhile isDigitOrUnderscore = [] then .ok n
    else .error .malformed

def integerOfChars (cs : List Char) : Except IntegerError Int :=
  let cs := ((cs.dropWhile isBlank).reverse.dropWhile isBlank).reverse
  match cs with
  | '-' :: rest => (natural rest).map fun n => -(n : Int)
  | '+' :: rest => (natural rest).map fun n => (n : Int)
  | rest => (natural rest).map fun n => (n : Int)

/-- The integer a text writes. -/
def integer (s : String) : Except IntegerError Int := integerOfChars s.toList

end Formula.Text
