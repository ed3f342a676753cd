import Formula.Op.Registry
import Formula.Tensor.Broadcast

/-!
# Tables of kernels

The kernels are found by operator in tables: one table for operators with one operand, and one for
those with two. Single numbers and columns share their tables; functions of arguments have tables of
their own, where only the factorial is made in another way.

The machine looks an operator up in the registry to see how many operands it takes, and then in the
table for that many. An operator that is missing there would be refused.
-/

namespace Formula

/-- What a kernel makes of a single number, and of an element of an array. -/
structure UnaryKernel where
  single : Double → Double
  element : Double → Double

def UnaryKernel.same (f : Double → Double) : UnaryKernel := ⟨f, f⟩

/-- What a kernel makes of two numbers, for a right operand that is fixed and for one that
varies. -/
structure BinaryKernel where
  fixed : Double → Double → Double
  varying : Double → Double → Double

/-- A binary kernel on tensors, element by element. -/
def BinaryKernel.onTensors (k : BinaryKernel) (x y : Tensor Double) :
    Except RunError (Tensor Double) :=
  Tensor.zipWith (if Tensor.varies x.shape y.shape then k.varying else k.fixed) x y

namespace Kernels

variable (K : Kernels)

def unaryKernels : List (Op × UnaryKernel) :=
  [(.unary .plus, .same id),
   (.unary .minus, .same Double.neg),
   (.unary .factorial, ⟨Double.factorial, Double.factorialOfElement⟩),
   (.unary (.call .sqrt), .same (K.call .sqrt)),
   (.unary (.call .sin), .same (K.call .sin)),
   (.unary (.call .cos), .same (K.call .cos)),
   (.unary (.call .tan), .same (K.call .tan)),
   (.unary (.call .asin), .same (K.call .asin)),
   (.unary (.call .acos), .same (K.call .acos)),
   (.unary (.call .atan), .same (K.call .atan)),
   (.unary (.call .log), .same (K.call .log))]

def binaryKernels : List (Op × BinaryKernel) :=
  [(.binary .add, ⟨K.binary .add, K.binaryVarying .add⟩),
   (.binary .subtract, ⟨K.binary .subtract, K.binaryVarying .subtract⟩),
   (.binary .multiply, ⟨K.binary .multiply, K.binaryVarying .multiply⟩),
   (.binary .divide, ⟨K.binary .divide, K.binaryVarying .divide⟩),
   (.binary .power, ⟨K.binary .power, K.binaryVarying .power⟩)]

/-- The unary kernels for functions of arguments. -/
def argumentUnaryKernels : List (Op × (Double → Double)) :=
  [(.unary .plus, fun x => x),
   (.unary .minus, Double.neg),
   (.unary .factorial, fun x => Double.factorialBySteps (K.compared x)),
   (.unary (.call .sqrt), K.call .sqrt),
   (.unary (.call .sin), K.call .sin),
   (.unary (.call .cos), K.call .cos),
   (.unary (.call .tan), K.call .tan),
   (.unary (.call .asin), K.call .asin),
   (.unary (.call .acos), K.call .acos),
   (.unary (.call .atan), K.call .atan),
   (.unary (.call .log), K.call .log)]

/-- The binary kernels for functions of arguments. -/
def argumentBinaryKernels : List (Op × BinaryKernel) :=
  [(.binary .add, ⟨K.binary .add, K.binaryVarying .add⟩),
   (.binary .subtract, ⟨K.binary .subtract, K.binaryVarying .subtract⟩),
   (.binary .multiply, ⟨K.binary .multiply, K.binaryVarying .multiply⟩),
   (.binary .divide, ⟨K.binary .divide, K.binaryVarying .divide⟩),
   (.binary .power, ⟨K.binary .power, K.binaryVarying .power⟩)]

/-- A unary kernel, for operators that have one. -/
def unaryKernel (o : Op) : Except WrongArity UnaryKernel :=
  match K.unaryKernels.lookup o with
  | some k => .ok k
  | none => .error ⟨o⟩

/-- A binary kernel, for operators that have one. -/
def binaryKernel (o : Op) : Except WrongArity BinaryKernel :=
  match K.binaryKernels.lookup o with
  | some k => .ok k
  | none => .error ⟨o⟩

end Kernels

/-! ## Finding kernels -/

/-- Why an operator is not applied: its kernel fails or is missing. -/
inductive ApplyError where
  | run (error : RunError)
  | noKernel (error : WrongArity)

/-- The kernels of a machine, and the one that it takes for the factorial without looking, if it
does so. -/
structure KernelTables (α : Type) where
  unary : List (Op × (α → α))
  binary : List (Op × (α → α → Except RunError α))
  factorial : Option (α → α)

namespace KernelTables

variable {α : Type}

def unaryKernel? (T : KernelTables α) (o : Op) : Option (α → α) :=
  if o = .unary .factorial then T.factorial.or (T.unary.lookup o) else T.unary.lookup o

/-- Finds the kernel and takes an operand. -/
def applyUnary (T : KernelTables α) (o : Op) (stack : List α) :
    Except (ApplyError × List α) (List α) :=
  match T.unaryKernel? o, stack with
  | none, stack => .error (.noKernel ⟨o⟩, stack)
  | some k, x :: stack => .ok (k x :: stack)
  | some _, [] => .error (.run .emptyStack, [])

/-- Takes two operands and finds the kernel. -/
def applyBinary (T : KernelTables α) (o : Op) : List α → Except (ApplyError × List α) (List α)
  | y :: x :: stack =>
    match T.binary.lookup o with
    | none => .error (.noKernel ⟨o⟩, stack)
    | some k =>
      match k x y with
      | .ok z => .ok (z :: stack)
      | .error e => .error (.run e, stack)
  | _ => .error (.run .emptyStack, [])

/-- Applies an operator to the topmost values, as its entry in the registry says. -/
def apply (T : KernelTables α) (o : Op) (stack : List α) :
    Except (ApplyError × List α) (List α) :=
  match operators.lookup o with
  | none => .error (.noKernel ⟨o⟩, stack)
  | some info => if info.isBinary then T.applyBinary o stack else T.applyUnary o stack

end KernelTables

namespace Kernels

variable (K : Kernels)

/-- The kernels for single numbers. -/
def singleTables : KernelTables Double where
  unary := K.unaryKernels.map fun e => (e.1, e.2.single)
  binary := K.binaryKernels.map fun e => (e.1, fun x y => .ok (e.2.fixed x y))
  factorial := some Double.factorial

/-- The kernels for columns. -/
def columnTables : KernelTables (Tensor Double) where
  unary := K.unaryKernels.map fun e => (e.1, Tensor.map e.2.element)
  binary := K.binaryKernels.map fun e => (e.1, e.2.onTensors)
  factorial := some (Tensor.map Double.factorialOfElement)

/-- The kernels for functions of arguments. -/
def argumentTables : KernelTables (Tensor Double) where
  unary := K.argumentUnaryKernels.map fun e => (e.1, Tensor.map e.2)
  binary := K.argumentBinaryKernels.map fun e => (e.1, e.2.onTensors)
  factorial := none

end Kernels

end Formula
