import Formula.Double.Basic

/-!
# Decimals and doubles

A decimal is a digit string with a power of ten. Reading takes the nearest magnitude, writing the
shortest decimal that is read back as the same magnitude.

## How it works

Both directions compute with the exact value as a quotient of integers. Writing goes through the
grids of the multiples of `10 ^ e`, from coarse to fine. On each grid only the two neighbours of the
value can be the nearest point, so two tests decide whether the grid has a point that reads back.
The first grid with such a point has the fewest digits. The search ends because every magnitude is a
multiple of `10 ^ (-1074)`.
-/

namespace Formula

/-- `digits * 10 ^ exponent`. -/
structure Decimal where
  digits : Nat
  exponent : Int
  deriving DecidableEq

namespace Decimal

/--
The nearest magnitude; a half goes to the even place.

A decimal far outside the range is decided without its power of ten: from `10 ^ 401` on it is
infinite, and below `2 ^ (-1080)`, where `10 ^ e` is at least `8 ^ e`, it is zero.
-/
def toMagnitude (d : Decimal) : Magnitude :=
  if d.digits = 0 then .zero
  else match d.exponent with
    | .ofNat e =>
      if 400 < e then .top else .ofRatio (d.digits * Nat.pow 10 e * Magnitude.unitsPerOne) 1
    | .negSucc k =>
      let e := k + 1
      if d.digits.log2 + 1080 < 3 * e then .zero
      else .ofRatio (d.digits * Magnitude.unitsPerOne) (Nat.pow 10 e)

end Decimal

namespace Magnitude

/-! ## The shortest decimal -/

/-- The value as a multiple of `10 ^ (s - 1074)`, numerator and denominator. -/
def onGrid (m : Magnitude) (s : Nat) : Nat × Nat :=
  if s ≤ 1074 then (m.units * Nat.pow 10 (1074 - s), unitsPerOne)
  else (m.units, unitsPerOne * Nat.pow 10 (s - 1074))

/-- Of the two neighbours on a grid the nearer one that reads back; a tie goes to the even digit. -/
def nearestOnGrid? (m : Magnitude) (s : Nat) : Option Decimal :=
  let (num, den) := m.onGrid s
  let exponent : Int := (s : Int) - 1074
  let below : Decimal := ⟨num / den, exponent⟩
  let above : Decimal := ⟨num / den + 1, exponent⟩
  if below.toMagnitude = m then
    if above.toMagnitude = m then some ⟨roundHalfEven num den, exponent⟩ else some below
  else if above.toMagnitude = m then some above else none

/-- Goes down the grids from `10 ^ (s - 1074)`; the last one holds every magnitude. -/
def shortestFrom (m : Magnitude) : Nat → Decimal
  | 0 => ⟨m.units * Nat.pow 5 1074, -1074⟩
  | s + 1 =>
    match m.nearestOnGrid? (s + 1) with
    | some d => d
    | none => m.shortestFrom s

/--
The decimal with the fewest digits that reads back, and of these the nearest. Zero is on every grid
and is taken as an integer.

The search starts above the first digit: `1233 / 4096` is `log 2` to the base ten, rounded down by
less than `1 / 100000`.
-/
def shortest (m : Magnitude) : Decimal :=
  if m = zero then ⟨0, 0⟩ else m.shortestFrom (m.units.log2 * 1233 / 4096 + 752)

end Magnitude

end Formula
