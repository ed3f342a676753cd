import Formula.Double.Arithmetic

/-!
# Elementary functions

The trigonometric functions, the logarithm and the power are those of the machine: a double is
handed over and taken back by its encoding. Nothing in this library depends on what they compute.

A power with a fixed exponent has shortcuts. They differ from the power of the machine in the square
root: that of negative infinity is NaN, and that of a negative zero is a negative zero.
-/

namespace Formula.Double

def toMachine (x : Double) : Float := Float.ofBits (UInt64.ofNat x.toBits)

def ofMachine (x : Float) : Double := ofBits x.toBits.toNat

/-- A unary function of the machine, on doubles. -/
def ofMachineFunction (f : Float → Float) (x : Double) : Double := ofMachine (f x.toMachine)

def sin : Double → Double := ofMachineFunction Float.sin

def cos : Double → Double := ofMachineFunction Float.cos

def tan : Double → Double := ofMachineFunction Float.tan

def asin : Double → Double := ofMachineFunction Float.asin

def acos : Double → Double := ofMachineFunction Float.acos

def atan : Double → Double := ofMachineFunction Float.atan

/-- The natural logarithm. -/
def log : Double → Double := ofMachineFunction Float.log

def pow (x y : Double) : Double := ofMachine (Float.pow x.toMachine y.toMachine)

/-- A power whose exponent is fixed: the reciprocal, one, the square root, the base and the square
are computed as such. -/
def powFixed (x y : Double) : Double :=
  if y = one.neg then one.div x
  else if y.equals zero then one
  else if y = one.div (ofNat 2) then x.sqrt
  else if y = one then x
  else if y = ofNat 2 then x.mul x
  else pow x y

end Formula.Double
