/-!
# Runs

A run is a piece of a list that is taken as ordered. A list begins with a run as long as its
elements go: upwards, or strictly downwards, which is turned around. A short run is made longer by
inserting elements that follow it; the place of each is found by halving.

Nothing here asks that the comparison is an order. Where it is none, a place is still determined by
the comparisons that are made.
-/

namespace Formula.Statistic

variable {α : Type}

/-! ## The first run -/

/-- Elements as long as each is below the one before, the last one first; and the rest. -/
def descendingRun (lt : α → α → Bool) (run : List α) : List α → List α × List α
  | [] => (run, [])
  | x :: rest =>
    match run with
    | y :: _ => if lt x y then descendingRun lt (x :: run) rest else (run, x :: rest)
    | [] => descendingRun lt [x] rest

/-- Elements as long as none is below the one before, the last one first; and the rest. -/
def ascendingRun (lt : α → α → Bool) (run : List α) : List α → List α × List α
  | [] => (run, [])
  | x :: rest =>
    match run with
    | y :: _ => if lt x y then (run, x :: rest) else ascendingRun lt (x :: run) rest
    | [] => ascendingRun lt [x] rest

/-- The first run in ascending order, and the rest. -/
def firstRun (lt : α → α → Bool) : List α → List α × List α
  | x :: y :: rest =>
    if lt y x then descendingRun lt [y, x] rest
    else
      let (run, rest) := ascendingRun lt [y, x] rest
      (run.reverse, rest)
  | xs => (xs, [])

/-! ## Insertion by halving -/

/-- The first place from `low` on where a test fails, sought by halving up to `high`. -/
def boundary (test : Nat → Bool) (low high : Nat) : Nat :=
  if low < high then
    let middle := low + (high - low) / 2
    if test middle then boundary test (middle + 1) high else boundary test low middle
  else high
termination_by high - low

/-- Puts an element behind all that it is not below. -/
def insert (lt : α → α → Bool) (run : List α) (x : α) : List α :=
  let stays (place : Nat) : Bool := (run[place]?.map fun y => !lt x y).getD false
  let place := boundary stays 0 run.length
  run.take place ++ x :: run.drop place

/-- The first run, made up to a length as far as there are elements; and the rest. -/
def longRun (lt : α → α → Bool) (length : Nat) (xs : List α) : List α × List α :=
  let (run, rest) := firstRun lt xs
  let wanted := length - run.length
  ((rest.take wanted).foldl (insert lt) run, rest.drop wanted)

end Formula.Statistic
