import Formula.Text.Quoted

/-!
# Keywords of methods

A method belongs to an object, which it receives as an argument with a name of its own. Where a
method takes any keywords besides, a keyword of that name would be a second value for the same
argument. Such a call fails before anything is done. It does not matter whether the object knows the
name otherwise: the name of a variable may well be the one of the receiver.
-/

namespace Formula

/-- The argument in which a method receives its object. -/
def receiver : String := "self"

/-- A method that was given its receiver by keyword as well. -/
structure ReceiverClash where
  method : String
  deriving DecidableEq

def ReceiverClash.message (e : ReceiverClash) : String :=
  e.method ++ "() got multiple values for argument " ++ Text.quoted receiver

/-- The keywords that a method is called with. -/
def bindKeywords {α : Type} (method : String) (keywords : List (String × α)) :
    Except ReceiverClash (List (String × α)) :=
  if (keywords.map Prod.fst).contains receiver then .error ⟨method⟩ else .ok keywords

section

variable {α : Type} {method : String} {keywords : List (String × α)}

theorem bindKeywords_of_mem (h : receiver ∈ keywords.map Prod.fst) :
    bindKeywords method keywords = .error ⟨method⟩ := if_pos (List.contains_iff_mem.mpr h)

end

end Formula
