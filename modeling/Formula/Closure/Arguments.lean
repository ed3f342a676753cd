import Formula.Text.Quoted

/-!
# Arguments by position or by name

A function of named arguments is called with one value for each of them: in the order of its names,
or under the names in any order, but not both. A name may stand for several arguments at once;
under that name all of them get the same value. A name that is given twice counts once, with its
last value.
-/

namespace Formula

/-- Why a function cannot be called or formed with the names it is given. -/
inductive ArgumentError where
  | mixed
  | mismatch (missing extra : List String)
  | count (expected given : Nat)
  | unknownArgument (name : String)
  | noVariables (names : List String)
  deriving DecidableEq

namespace ArgumentError

/-- Names under a label, if there are any. -/
def labelled (label : String) (names : List String) : List String :=
  if names = [] then [] else [label ++ "=" ++ Text.quotedList names]

def message : ArgumentError → String
  | .mixed => "Use either positional or keyword arguments, not both"
  | .mismatch missing extra =>
    "Keyword arguments do not match signature ("
      ++ String.intercalate ", " (labelled "missing" missing ++ labelled "extra" extra) ++ ")"
  | .count expected given =>
    "Expected " ++ toString expected ++ " arguments, got " ++ toString given
  | .unknownArgument name => "Unknown argument " ++ Text.quoted name
  | .noVariables names => "Expression has no variables named " ++ Text.quotedList names

end ArgumentError

/-- The values of a call, by position and by name. -/
structure Arguments (α : Type) where
  positional : List α
  named : List (String × α)

namespace Arguments

variable {α : Type}

/-- The values in the order of the names; they must be exactly those that are asked for. -/
def resolve (argNames : List String) (args : Arguments α) : Except ArgumentError (List α) :=
  let given := (args.named.map Prod.fst).eraseDups
  if args.named.isEmpty then
    if args.positional.length = argNames.length then .ok args.positional
    else .error (.count argNames.length args.positional.length)
  else if !args.positional.isEmpty then .error .mixed
  else
    let missing := argNames.filter fun n => !given.contains n
    let extra := given.filter fun n => !argNames.contains n
    if missing = [] ∧ extra = [] then .ok (argNames.filterMap fun n => args.named.reverse.lookup n)
    else .error (.mismatch missing extra)

end Arguments

end Formula
