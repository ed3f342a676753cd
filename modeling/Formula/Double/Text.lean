import Formula.Double.Decimal

/-!
# Doubles as text

The shortest decimal is written out positionally while its leading digit is not too far from the
point, and in exponent form elsewhere.
-/

namespace Formula.Double

/-- Which leading digits are written positionally, and how many digits an exponent has at least. -/
structure Layout where
  leastPosition : Int
  greatestPosition : Int
  exponentWidth : Nat

/-- Results are positional from `0.0001` to below `10 ^ 16`; an exponent has at least two digits. -/
def resultLayout : Layout := ⟨-4, 15, 2⟩

def decimalDigits (n : Nat) : List Char := Nat.toDigits 10 n

/-- Digits with zeros in front up to a width. -/
def padded (width n : Nat) : List Char :=
  let ds := decimalDigits n
  List.replicate (width - ds.length) '0' ++ ds

/-- Positional digits, with at least one on each side of the point; `point` is where the point
stands, counted from before the first digit. -/
def positional (digits : List Char) (point : Int) : List Char :=
  if point ≤ 0 then '0' :: '.' :: List.replicate (-point).toNat '0' ++ digits
  else
    let whole := digits.take point.toNat
    let part := digits.drop point.toNat
    whole ++ List.replicate (point.toNat - whole.length) '0'
      ++ '.' :: (if part = [] then ['0'] else part)

/-- One digit in front of the point, which is left out if none follows it. -/
def exponential (l : Layout) (digits : List Char) (position : Int) : List Char :=
  let part := digits.drop 1
  digits.take 1 ++ (if part = [] then [] else '.' :: part)
    ++ 'e' :: (if position < 0 then '-' else '+') :: padded l.exponentWidth position.natAbs

def decimalText (l : Layout) (d : Decimal) : List Char :=
  let digits := decimalDigits d.digits
  let position := (digits.length : Int) + d.exponent - 1
  if l.leastPosition ≤ position ∧ position ≤ l.greatestPosition then
    positional digits (position + 1)
  else exponential l digits position

/-- The characters a double is written with. -/
def textWith (l : Layout) : Double → List Char
  | .nan => ['n', 'a', 'n']
  | .num neg mag =>
    (if neg then ['-'] else [])
      ++ (if mag = .top then ['i', 'n', 'f'] else decimalText l mag.shortest)

/-- The text of a result. -/
def text (x : Double) : String := String.ofList (x.textWith resultLayout)

end Formula.Double
