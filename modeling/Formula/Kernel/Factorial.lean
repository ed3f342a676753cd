import Formula.Double.Arithmetic

/-!
# Factorials of doubles

Only a finite integer that is not negative has a factorial; elsewhere it is NaN. The product is
rounded after each factor, from the left. `171!` is the first to overflow, and from there on every
factorial is infinite.

There are three ways to compute it, each with a test of its own for the operand. One number at a
time, the product stops when it is infinite. In an array all elements go through the same 170 steps,
each of which touches the elements that are large enough; whether an element has a factorial is
decided either before or after the steps.
-/

namespace Formula.Double

/-- Beyond this operand the product is not formed at all. -/
def factorialLimit : Double := ofNat 0x7fffffff

/-- Multiplies by `k` factors from `i` on, up to an infinite product. -/
def productFrom : Nat → Nat → Double → Double
  | 0, _, acc => acc
  | k + 1, i, acc => if acc.isInfinite then acc else productFrom k (i + 1) (acc.mul (ofNat i))

/-- Whether a number has a factorial; both zeros have one. -/
def hasFactorial (x : Double) : Bool :=
  !(!x.isFinite || x.lt zero || !x.equalsFloor x)

/-- The factorial of one number. -/
def factorial (x : Double) : Double :=
  if !x.hasFactorial then .nan
  else if factorialLimit.lt x then infinity
  else productFrom ((x.floor?.getD 0).toNat - 1) 2 one

/-- The factors of the longest product that is formed step by step. -/
def factorialFactors : List Nat := List.range' 2 170

/-- Whether an element has a factorial; no floor is taken of an element that is not finite. -/
def elementHasFactorial (x : Double) : Bool :=
  let finite := x.isFinite
  let integral := finite && x.equalsFloor (if finite then x else zero)
  integral && zero.le x

/-- The factorial of an element that is NaN from the start if it has none. -/
def factorialOfElement (x : Double) : Double :=
  let valid := x.elementHasFactorial
  let product := factorialFactors.foldl
    (fun acc i => if valid && (ofNat i).le x then acc.mul (ofNat i) else acc)
    (if valid then one else .nan)
  if valid && factorialLimit.lt x then infinity else product

/-- Whether an argument has a factorial; all three tests are made in any case. -/
def argumentHasFactorial (x : Double) : Bool :=
  x.isFinite && x.equalsFloor x && zero.le x

/-- The factorial of an element that goes through the steps in any case. -/
def factorialBySteps (x : Double) : Double :=
  let valid := x.argumentHasFactorial
  let product := factorialFactors.foldl
    (fun acc i => if (ofNat i).le x then acc.mul (ofNat i) else acc) one
  let product := if valid && factorialLimit.lt x then infinity else product
  if valid then product else .nan

end Formula.Double
