import Formula.Closure.Arguments
import Formula.Expression.Basic

/-!
# Expressions as functions

A closure makes some variables of an expression into the arguments of a function. The other
variables keep the values that they had when the closure was formed, whatever happens to the
expression later. A name may be given to several arguments; the last of them decides.
-/

namespace Formula

/-- A program, the slots of its arguments, and the values of all slots when it was formed. -/
structure Closure where
  argNames : List String
  argSlots : List Nat
  source : String
  program : Program
  captured : List Double

namespace Closure

/-- The function of the given names, or of the free variables. All names must be known. -/
def ofExpression (e : Expression) (argNames : Option (List String)) :
    Except ArgumentError Closure :=
  let names := argNames.getD e.freeVariables
  let unknown := names.filter fun n => !e.table.contains n
  if unknown = [] then
    .ok ⟨names, names.filterMap e.table.slot?, e.source, e.program, e.table.values⟩
  else .error (.noVariables unknown)

/-- The value of the function on tensors that fit together. -/
def apply (f : Closure) (K : Kernels) (args : List (Tensor Double)) :
    Except RunError (Tensor Double) :=
  K.onArguments.eval (slotsWith (f.argSlots.zip args) f.captured) f.program

/-- How a closure is shown. -/
def text (f : Closure) : String :=
  "JaxFunction(arg_names=" ++ Text.quotedTuple f.argNames ++ ", source=" ++ Text.quoted f.source
    ++ ")"

/-! ## Mapping over an axis -/

/-- The axis of each argument over which a function is mapped; an argument without one is passed
whole. An axis may be counted from the end. -/
inductive MappedAxes where
  | all (axis : Int)
  | each (axes : List (Option Int))

def MappedAxes.toList (axes : MappedAxes) (count : Nat) : List (Option Int) :=
  match axes with
  | .all axis => List.replicate count (some axis)
  | .each axes => axes

/-- An axis counted from the front. -/
def axisOf (t : Tensor Double) (axis : Int) : Nat :=
  (if axis < 0 then axis + t.shape.length else axis).toNat

/-- The part of an argument for one place of the mapped axis. -/
def partAt (i : Nat) (t : Tensor Double) : Option Int → Tensor Double
  | none => t
  | some axis => t.slice (axisOf t axis) i

/-- The extent of the mapped axis. -/
def mappedExtent (args : List (Tensor Double)) (axes : List (Option Int)) : Nat :=
  ((args.zip axes).findSome? fun
    | (t, some axis) => t.shape[axisOf t axis]?
    | (_, none) => none).getD 0

/-- A way to map functions over axes, one entry for each argument. -/
abbrev Mapping := List (Option Int) → (List (Tensor Double) → Except RunError (Tensor Double)) →
  List (Tensor Double) → Except RunError (Tensor Double)

/-- The values on the parts, stacked along a new leading axis. The value on the parts at place 0
has the shape of all, even where the axis has no places. -/
def stacking : Mapping := fun axes g args =>
  let valueAt (i : Nat) := g (List.zipWith (partAt i) args axes)
  match valueAt 0, (List.range (mappedExtent args axes)).mapM valueAt with
  | .ok first, .ok parts => .ok (Tensor.stack first.shape parts)
  | .error e, _ => .error e
  | _, .error e => .error e

/-- The function of a closure, mapped in some way. -/
def applyMappedBy (f : Closure) (mapping : Mapping) (K : Kernels) (axes : MappedAxes)
    (args : List (Tensor Double)) : Except RunError (Tensor Double) :=
  mapping (axes.toList args.length) (f.apply K) args

def applyMapped (f : Closure) : Kernels → MappedAxes → List (Tensor Double) →
    Except RunError (Tensor Double) := f.applyMappedBy stacking

end Closure

end Formula
