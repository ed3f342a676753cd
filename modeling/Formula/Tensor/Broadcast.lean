import Formula.Program.Run
import Formula.Tensor.Basic

/-!
# Broadcasting

Two shapes fit together if, aligned at their last extents, they agree at every place where neither
is 1 and neither is missing. In the joint shape an extent 1 or a missing one gives way to the
other. A tensor is read at an index of a joint shape by leaving out the places that it does not
have and taking 0 where its extent is 1.
-/

namespace Formula

namespace Tensor

variable {α β γ : Type}

/-- Two extents together; 1 gives way. -/
def jointExtent (m n : Nat) : Option Nat :=
  if m = n then some m else if m = 1 then some n else if n = 1 then some m else none

/-- Two shapes together, first extent last. -/
def jointReversed : List Nat → List Nat → Option (List Nat)
  | [], shape => some shape
  | shape, [] => some shape
  | m :: s, n :: t =>
    match jointExtent m n, jointReversed s t with
    | some k, some shape => some (k :: shape)
    | _, _ => none

/-- Two shapes together, aligned at their last extents. -/
def jointShape (s t : List Nat) : Option (List Nat) :=
  (jointReversed s.reverse t.reverse).map List.reverse

/-- The index at which a shape is read for an index of a joint shape. -/
def project (shape ix : List Nat) : List Nat :=
  List.zipWith (fun n i => if n = 1 then 0 else i) shape (ix.drop (ix.length - shape.length))

/-- The element for an index of a joint shape. -/
def read [Inhabited α] (t : Tensor α) (ix : List Nat) : α := t.get (project t.shape ix)

/-- A function of two elements over two tensors. -/
def zipWith [Inhabited α] [Inhabited β] (f : α → β → γ) (x : Tensor α) (y : Tensor β) :
    Except RunError (Tensor γ) :=
  match jointShape x.shape y.shape with
  | some shape => .ok (ofFn shape fun ix => f (x.read ix) (y.read ix))
  | none => .error (.shapes x.shape y.shape)

/-- Whether a right operand of shape `t` varies in the innermost loop over a joint shape. Elements
of one shape, and of a single left operand, are taken in one loop; in other cases the loop goes
along the last extent other than 1. A single right operand never varies. -/
def varies (s t : List Nat) : Bool :=
  if t = [] then false
  else if s = t ∨ s = [] then true
  else match jointReversed s.reverse t.reverse with
    | none => false
    | some joint =>
      match (joint.zip (t.reverse ++ List.replicate joint.length 1)).find? fun e => e.1 ≠ 1 with
      | some (_, extent) => extent ≠ 1
      | none => false

end Tensor

namespace Kernels

/-- A binary operator on tensors, element by element. -/
def onTensors (K : Kernels) (b : BinaryOp) (x y : Tensor Double) :
    Except RunError (Tensor Double) :=
  Tensor.zipWith (if Tensor.varies x.shape y.shape then K.binaryVarying b else K.binary b) x y

/-- Arithmetic on tensors, with a given reading of the unary operators. -/
def elementwise (K : Kernels) (unary : UnaryOp → Double → Double) : Arithmetic (Tensor Double) where
  constant := Tensor.scalar
  unary op := Tensor.map (unary op)
  binary := K.onTensors

/-- Arithmetic on columns of values. -/
def batch (K : Kernels) : Arithmetic (Tensor Double) := K.elementwise K.unaryOnElement

/-- Arithmetic on the arguments of a function. -/
def onArguments (K : Kernels) : Arithmetic (Tensor Double) := K.elementwise K.unaryBySteps

end Kernels

/-! ## Columns -/

/-- The value that was given to a slot last. -/
def lastGiven {α : Type} (given : List (Nat × α)) (slot : Nat) : Option α :=
  given.reverse.lookup slot

/-- A slot has the tensor given for it, or else its single value. -/
def slotsWith (given : List (Nat × Tensor Double)) (values : List Double) (slot : Nat) :
    Option (Tensor Double) :=
  match lastGiven given slot with
  | some t => some t
  | none => values[slot]?.map Tensor.scalar

/-- Evaluates a program over columns, element by element. -/
def Program.evalBatch (p : Program) (K : Kernels) (values : List Double)
    (columns : List (Nat × Tensor Double)) : Except RunError (Tensor Double) :=
  K.batch.eval (slotsWith columns values) p

end Formula
