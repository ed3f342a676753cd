import Formula.Double.Elementary
import Formula.Kernel.Factorial
import Formula.Op

/-!
# Kernels

A kernel is the function on doubles that an operator stands for. The kernels of the named functions
and of the binary operators are a parameter: the rules of this library hold for any of them. Signs
and the factorial are the same for all.

A binary operator has a second kernel for arrays whose right operand varies from one element to the
next. It serves the same purpose and may take other ways to get there.

A factorial begins with comparisons of its operand. What a number counts as there is a parameter
too.
-/

namespace Formula

/-- One function on doubles for each named function, and two for each binary operator: one for a
right operand that is fixed, one for a right operand that varies; and what a double is compared
as. -/
structure Kernels where
  call : NamedFunction → Double → Double
  binary : BinaryOp → Double → Double → Double
  binaryVarying : BinaryOp → Double → Double → Double
  compared : Double → Double

namespace Kernels

/-- Rounded arithmetic, and a power function to go with it. -/
def arithmeticWith (power : Double → Double → Double) : BinaryOp → Double → Double → Double
  | .add => Double.add
  | .subtract => Double.sub
  | .multiply => Double.mul
  | .divide => Double.div
  | .power => power

/-- Rounded arithmetic, and the elementary functions of the machine. A domain error is NaN, and a
quotient by zero is infinite. Powers with a fixed exponent take the shortcuts. -/
def standard : Kernels where
  call
    | .sqrt => Double.sqrt
    | .sin => Double.sin
    | .cos => Double.cos
    | .tan => Double.tan
    | .asin => Double.asin
    | .acos => Double.acos
    | .atan => Double.atan
    | .log => Double.log
  binary := arithmeticWith Double.powFixed
  binaryVarying := arithmeticWith Double.pow
  compared := id

/-- A binary operator without shortcuts, on a machine without subnormals. -/
def binaryFlushing (b : BinaryOp) (x y : Double) : Double :=
  (standard.binaryVarying b x.flush y.flush).flush

/-- The standard kernels without shortcuts, on a machine without subnormals. -/
def flushing : Kernels where
  call f x := (standard.call f x.flush).flush
  binary := binaryFlushing
  binaryVarying := binaryFlushing
  compared := Double.flush

/-- A unary operator on one double. -/
def unary (K : Kernels) : UnaryOp → Double → Double
  | .plus => id
  | .minus => Double.neg
  | .factorial => Double.factorial
  | .call f => K.call f

/-- A unary operator on an element of an array. -/
def unaryOnElement (K : Kernels) : UnaryOp → Double → Double
  | .factorial => Double.factorialOfElement
  | op => K.unary op

/-- A unary operator in a function of arguments. -/
def unaryBySteps (K : Kernels) : UnaryOp → Double → Double
  | .factorial => fun x => Double.factorialBySteps (K.compared x)
  | op => K.unary op

end Kernels

end Formula
