/-!
# Indices

An index is a signed word of 64 bits. A negative one counts from the end of a list.
-/

namespace Formula

/-- Why an index finds nothing: the list has no such place, or the index is none at all. -/
inductive IndexError where
  | outOfRange
  | tooLarge
  deriving DecidableEq

def IndexError.message : IndexError → String
  | .outOfRange => "list index out of range"
  | .tooLarge => "cannot fit 'int' into an index-sized integer"

/-- The first integer that is too large for an index. -/
def indexBound : Int := 0x8000000000000000

/-- The element at an index. -/
def elementAt {α : Type} (xs : List α) (i : Int) : Except IndexError α :=
  if i < -indexBound ∨ indexBound ≤ i then .error .tooLarge
  else
    let place := if i < 0 then i + xs.length else i
    if place < 0 then .error .outOfRange
    else match xs[place.toNat]? with
      | some x => .ok x
      | none => .error .outOfRange

end Formula
