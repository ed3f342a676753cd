import Formula.Double.Arithmetic
import Formula.Index
import Formula.Statistic.Sorting

/-!
# Percentiles and rates

The element at a fraction `q` of a sorted list stands at position `(n - 1) * q`, counted from 0.
Between two elements it is interpolated. A position before the first element counts from the end of
the list.
-/

namespace Formula.Statistic

/-- Why there is no such element: the list has none at the position, or that is no number, or
infinite. -/
inductive PositionError where
  | index (error : IndexError)
  | notANumber
  | infinite
  deriving DecidableEq

def PositionError.message : PositionError → String
  | .index e => e.message
  | .notANumber => "cannot convert float NaN to integer"
  | .infinite => "cannot convert float infinity to integer"

/-- The integers below and above a position. -/
def neighbours (pos : Double) : Except PositionError (Int × Int) :=
  match pos.floor?, pos.ceil? with
  | some lo, some hi => .ok (lo, hi)
  | _, _ => .error (if pos.isNaN then .notANumber else .infinite)

/-- What lies between two elements, at a part of the way from the first to the second. -/
def interpolate (low high part : Double) : Double :=
  (low.mul (Double.one.sub part)).add (high.mul part)

/-- The element at a position of an ordered list, or what lies between the two next to it. -/
def atPosition (ordered : List Double) (pos : Double) : Except PositionError Double := do
  let (lo, hi) ← neighbours pos
  let low ← (elementAt ordered lo).mapError .index
  if lo = hi then return low
  let high ← (elementAt ordered hi).mapError .index
  return interpolate low high (pos.sub (.ofInt lo))

/-- Where the element at a fraction of `n` elements stands. -/
def position (n : Nat) (q : Double) : Double := (Double.ofInt ((n : Int) - 1)).mul q

/-- The element at a fraction of an ordered list; a single element is at every fraction. -/
def atFraction (ordered : List Double) (q : Double) : Except PositionError Double :=
  match ordered with
  | [x] => .ok x
  | _ => atPosition ordered (position ordered.length q)

/-- The element at a fraction of the sorted list. -/
def percentile (xs : List Double) (q : Double) : Except PositionError Double :=
  atFraction (sort xs) q

/-- A count too large for a double. -/
inductive RateError where
  | tooLarge
  deriving DecidableEq

def RateError.message : RateError → String
  | .tooLarge => "int too large to convert to float"

/-- A count as a double. -/
def count (n : Int) : Except RateError Double :=
  let x := Double.ofInt n
  if x.isInfinite then .error .tooLarge else .ok x

/-- How often something happened in one second. In no time at all it happened infinitely often. -/
def perSecond (n : Int) (seconds : Double) : Except RateError Double :=
  if seconds.le .zero then .ok .infinity else (count n).map fun x => x.div seconds

end Formula.Statistic
