import Formula.Closure.Basic

/-!
# Gradients

The derivative of a closure by one of its arguments is found backwards. A run over recorded values
keeps for each value the operation it came from. Then the sensitivity of the result to a value is
passed on to the operands of that operation, beginning with 1 for the result itself. The derivative
is the sum of what arrives at the argument.

## How it works

The arguments are recorded by their positions. Which of them a slot gets is settled as in any other
run, so an argument may well occur nowhere in the record.

The record of a run is a tree. A value that is used more than once would be recorded as often, and
in the product of a factorial twice in each round. So a round is recorded as a binding: it speaks of
the product so far as of a bound value, and on the way back everything that arrives at the bound
value is added up before it is passed on.

A test is not a number. It is recorded what was tested and how it came out, and nothing is passed on
to what was tested. The arithmetic is a parameter, so that the same passage can be read in rational
numbers.
-/

namespace Formula

/-! ## Arithmetic with slopes -/

/-- The operations that values and their slopes need, and the tests of values. -/
structure Calculus (α : Type) where
  constant : Double → α
  zero : α
  one : α
  neg : α → α
  call : NamedFunction → α → α
  binary : BinaryOp → α → α → α
  isZero : α → Bool
  isFinite : α → Bool
  /-- Whether a value equals its floor. -/
  isWhole : α → Bool
  /-- Whether a value is not less than a constant. -/
  atLeast : Double → α → Bool
  /-- Whether a value is greater than a constant. -/
  above : Double → α → Bool

namespace Calculus

variable {α : Type} (C : Calculus α)

def add (x y : α) : α := C.binary .add x y

def sub (x y : α) : α := C.binary .subtract x y

def mul (x y : α) : α := C.binary .multiply x y

def div (x y : α) : α := C.binary .divide x y

def two : α := C.add C.one C.one

/-- The sum of parts in their order. -/
def total : List α → α
  | [] => C.zero
  | s :: rest => rest.foldl C.add s

def square (x : α) : α := C.mul x x

/-- The slope of the arc sine, `1 / sqrt (1 - x ^ 2)`. -/
def arcSlope (x : α) : α := C.div C.one (C.call .sqrt (C.sub C.one (C.square x)))

/-- What a function passes on to its argument `x`, from the sensitivity `s` to its value `v`. -/
def passCall (f : NamedFunction) (x v s : α) : α :=
  match f with
  | .sqrt => C.mul s (C.div (C.div C.one C.two) v)
  | .sin => C.mul s (C.call .cos x)
  | .cos => C.mul (C.neg s) (C.call .sin x)
  | .tan => C.mul s (C.add C.one (C.square v))
  | .asin => C.mul s (C.arcSlope x)
  | .acos => C.mul s (C.neg (C.arcSlope x))
  | .atan => C.div s (C.add C.one (C.square x))
  | .log => C.div s x

/-- What a binary operation passes on to its left operand. -/
def passLeft (b : BinaryOp) (x y s : α) : α :=
  match b with
  | .add | .subtract => s
  | .multiply => C.mul s y
  | .divide => C.div s y
  | .power => C.mul s (C.mul y (C.binary .power x (C.sub y C.one)))

/-- What a binary operation with value `v` passes on to its right operand. The logarithm of a base
0 is taken as 0, since the power does not change there. -/
def passRight (b : BinaryOp) (x y v s : α) : α :=
  match b with
  | .add => s
  | .subtract => C.neg s
  | .multiply => C.mul s x
  | .divide => C.neg (C.mul (C.mul s (C.div C.one (C.square y))) x)
  | .power =>
    C.mul s (C.mul (C.call .log (if C.isZero x then C.one else x)) v)

end Calculus

/-! ## Recorded values -/

/-- Where a value comes from that is no result of an operation: from a constant, from the argument
at a position, or from what is bound around it. -/
inductive Origin where
  | constant
  | argument (position : Nat)
  | bound
  deriving DecidableEq

/-- A value with the operation it came from. A choice has the value of one of its two branches, and
it keeps what was tested for it. A binding has the value of its body, in which the bound value
stands for what is bound. -/
inductive Recorded (α : Type) where
  | leaf (origin : Origin) (value : α)
  | neg (operand : Recorded α) (value : α)
  | call (f : NamedFunction) (operand : Recorded α) (value : α)
  | binary (op : BinaryOp) (left right : Recorded α) (value : α)
  | choose (tested : Recorded α) (outcome : Bool) (left right : Recorded α)
  | bind (value body : Recorded α)

namespace Recorded

variable {α : Type}

def value : Recorded α → α
  | .leaf _ v | .neg _ v | .call _ _ v | .binary _ _ _ v => v
  | .choose _ outcome l r => if outcome then l.value else r.value
  | .bind _ body => body.value

/-- What arrives at an origin from the sensitivity `s` of the result to this value, part by part.
What stands in the body of a binding for the bound value belongs to no binding further out. -/
def arriving (C : Calculus α) (o : Origin) : Recorded α → α → List α
  | .leaf origin _, s => if origin = o then [s] else []
  | .neg x _, s => x.arriving C o (C.neg s)
  | .call f x v, s => x.arriving C o (C.passCall f x.value v s)
  | .binary b x y v, s =>
    x.arriving C o (C.passLeft b x.value y.value s)
      ++ y.arriving C o (C.passRight b x.value y.value v s)
  | .choose _ outcome l r, s =>
    l.arriving C o (if outcome then s else C.zero) ++ r.arriving C o (if outcome then C.zero else s)
  | .bind x body, s =>
    (if o = .bound then [] else body.arriving C o s)
      ++ x.arriving C o (C.total (body.arriving C .bound s))

/-- The sum of what arrives at an argument; nothing arrives where it plays no part. -/
def derivative (C : Calculus α) (position : Nat) (r : Recorded α) : α :=
  C.total (r.arriving C (.argument position) C.one)

/-! ## Recording -/

def constant (C : Calculus α) (v : Double) : Recorded α := .leaf .constant (C.constant v)

/-- Arguments by their positions. -/
def arguments (args : List α) : List (Recorded α) :=
  args.zipIdx.map fun (v, i) => .leaf (.argument i) v

def times (C : Calculus α) (x y : Recorded α) : Recorded α :=
  .binary .multiply x y (C.mul x.value y.value)

/-- One round of the product: the factor counts unless it is greater than the operand. -/
def factorialRound (C : Calculus α) (x product : Recorded α) (i : Nat) : Recorded α :=
  let soFar := .leaf .bound product.value
  .bind product
    (.choose x (C.atLeast (.ofNat i) x.value) (times C soFar (constant C (.ofNat i))) soFar)

/-- The product of the fixed factors that count. -/
def factorialProduct (C : Calculus α) (x : Recorded α) : Recorded α :=
  Double.factorialFactors.foldl (factorialRound C x) (constant C .one)

/-- A factorial step by step. -/
def factorial (C : Calculus α) (x : Recorded α) : Recorded α :=
  let valid := C.isFinite x.value && C.isWhole x.value && C.atLeast .zero x.value
  let limited := .choose x (valid && C.above Double.factorialLimit x.value)
    (constant C .infinity) (factorialProduct C x)
  .choose x valid limited (constant C .nan)

end Recorded

/-- The arithmetic that records. -/
def Calculus.recording {α : Type} (C : Calculus α) : Arithmetic (Recorded α) where
  constant := .constant C
  unary
    | .plus, x => x
    | .minus, x => .neg x (C.neg x.value)
    | .factorial, x => .factorial C x
    | .call f, x => .call f x (C.call f x.value)
  binary b x y := .ok (.binary b x y (C.binary b x.value y.value))

/-- Doubles with the given kernels. -/
def Kernels.calculus (K : Kernels) : Calculus Double where
  constant := id
  zero := .zero
  one := .one
  neg := Double.neg
  call := K.call
  binary := K.binary
  isZero x := (K.compared x).equals .zero
  isFinite x := (K.compared x).isFinite
  isWhole x := (K.compared x).equalsFloor (K.compared x)
  atLeast c x := c.le (K.compared x)
  above c x := c.lt (K.compared x)

namespace Closure

/-- A position, or a name for its first position. A position may be counted from the end. -/
inductive Position where
  | index (i : Int)
  | name (name : String)

/-- The position among the arguments. -/
def positionOf (f : Closure) : Position → Except ArgumentError Nat
  | .index i => .ok (if i < 0 then i + f.argNames.length else i).toNat
  | .name name =>
    match f.argNames.idxOf? name with
    | some i => .ok i
    | none => .error (.unknownArgument name)

/-- The value of a slot while the closure is applied to single values. -/
def recordedSlots {α : Type} (f : Closure) (C : Calculus α) (args : List α) (slot : Nat) :
    Option (Recorded α) :=
  match lastGiven (f.argSlots.zip (Recorded.arguments args)) slot with
  | some x => some x
  | none => f.captured[slot]?.map (Recorded.constant C)

/-- The record of an application to single values. -/
def record {α : Type} (f : Closure) (C : Calculus α) (args : List α) :
    Except RunError (Recorded α) :=
  C.recording.eval (f.recordedSlots C args) f.program

/-- The derivative by the argument at a position, as `differentiate` finds it from the record. -/
def gradientBy {α : Type} (differentiate : Nat → Recorded α → α) (f : Closure) (C : Calculus α)
    (position : Nat) (args : List α) : Except RunError α :=
  (f.record C args).map (differentiate position)

/-- The derivative by the argument at a position. -/
def gradient {α : Type} (f : Closure) (C : Calculus α) (position : Nat) (args : List α) :
    Except RunError α :=
  f.gradientBy (Recorded.derivative C) C position args

end Closure

end Formula
