import Formula.Index

/-!
# Errors of runs
-/

namespace Formula

/-- Why a run fails: no value left to take, no such slot, or shapes that do not fit together. -/
inductive RunError where
  | emptyStack
  | noSlot (slot : Nat)
  | shapes (left right : List Nat)
  deriving DecidableEq

/-- A shape between parentheses; a single extent is followed by a comma. -/
def shapeText : List Nat → String
  | [n] => "(" ++ toString n ++ ",)"
  | shape => "(" ++ String.intercalate "," (shape.map toString) ++ ")"

def RunError.message : RunError → String
  | .emptyStack => "pop from empty list"
  | .noSlot slot =>
    (if slot < indexBound then IndexError.outOfRange else IndexError.tooLarge).message
  | .shapes left right =>
    "operands could not be broadcast together with shapes " ++ shapeText left ++ " "
      ++ shapeText right ++ " "

end Formula
