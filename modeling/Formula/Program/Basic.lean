import Formula.Op
import Formula.Double.Basic

/-!
# Programs

A program is a sequence of instructions for a stack machine. Operators come behind their operands,
so no brackets and no priorities are left.
-/

namespace Formula

/-- Push a constant, push the value of a slot, or apply an operator to the topmost values. The name
of a slot has no meaning for the machine. -/
inductive Instr where
  | push (value : Double)
  | load (slot : Nat) (name : String)
  | apply (o : Op)
  deriving DecidableEq

abbrev Program := List Instr

/-- The names that a program loads, each at its first place. -/
def Program.loadedNames (p : Program) : List String :=
  (p.filterMap fun
    | .load _ name => some name
    | _ => none).eraseDups

end Formula
