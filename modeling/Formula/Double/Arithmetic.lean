import Formula.Double.Basic

/-!
# Arithmetic on doubles

Every operation forms the exact result of the exact values of its operands, as an integer or a
quotient of integers counted in units of `2 ^ (-1074)`, and rounds once to the nearest place. What
is left are the cases without such a result: NaN, infinities, and a quotient by zero.
-/

namespace Formula.Double

/-- Turns the sign, that of a zero too. -/
def neg : Double → Double
  | .nan => .nan
  | .num s m => .num (!s) m

/-- The double nearest to a sum of units; an exact zero takes the given sign. -/
def ofUnits (zeroSign : Bool) (u : Int) : Double :=
  if u = 0 then .num zeroSign .zero else .num (decide (u < 0)) (.ofRatio u.natAbs 1)

/-- The exact value in units, read as an integer; infinity counts as `2 ^ 1024`. -/
def signedUnits (s : Bool) (m : Magnitude) : Int :=
  if s then -(m.units : Int) else m.units

/-- Infinity absorbs every finite number, and infinities of both signs give NaN. An exact zero is
negative only if both operands are. -/
def add : Double → Double → Double
  | .nan, _ => .nan
  | _, .nan => .nan
  | .num s m, .num t n =>
    if m = .top then
      if n = .top ∧ s ≠ t then .nan else .num s m
    else if n = .top then .num t n
    else ofUnits (s && t) (signedUnits s m + signedUnits t n)

def sub (x y : Double) : Double := add x (neg y)

def mul : Double → Double → Double
  | .nan, _ => .nan
  | _, .nan => .nan
  | .num s m, .num t n =>
    if m = .top ∨ n = .top then
      if m = .zero ∨ n = .zero then .nan else .num (s != t) .top
    else .num (s != t) (.ofRatio (m.units * n.units) Magnitude.unitsPerOne)

/-- A number other than zero divided by zero is infinite. -/
def div : Double → Double → Double
  | .nan, _ => .nan
  | _, .nan => .nan
  | .num s m, .num t n =>
    if m = .top then
      if n = .top then .nan else .num (s != t) .top
    else if n = .top then .num (s != t) .zero
    else if n = .zero then
      if m = .zero then .nan else .num (s != t) .top
    else .num (s != t) (.ofRatio (m.units * Magnitude.unitsPerOne) n.units)

/-- Below zero there is no root; both zeros are their own. -/
def sqrt : Double → Double
  | .nan => .nan
  | .num s m => if m = .zero then .num s m else if s then .nan else .num false m.sqrt

/-! ## Subnormals -/

/-- The double as a machine without subnormals has it: for each of them it has a zero of the same
sign. -/
def flush : Double → Double
  | .nan => .nan
  | .num s m => .num s (if m.place < 0x10000000000000 then .zero else m)

end Formula.Double
