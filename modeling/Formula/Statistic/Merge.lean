import Formula.Statistic.Run

/-!
# Merging two runs

Two runs are merged from their front, or from their end with everything the other way round: the
last elements are taken first. An element of the first run is taken where the one of the second run
is not below it; from the end, an element of the first run is taken where the one of the second run
is below it. So equal elements keep their order.

## How it works

Elements are taken one by one as long as no run wins many times in a row. Then whole blocks are
taken: how many elements of one run come before the next of the other is found by steps of doubling
length, and by halving within the last step. How many wins are many is carried from merge to merge:
taking blocks makes it smaller, and giving that up makes it larger.

One of the runs is the spare one, the first run from the front and the second one from the end. A
merge is finished when the other run is used up, or when the spare one has one element left, which
then belongs behind everything else.
-/

namespace Formula.Statistic

variable {α : Type}

/-! ## Leading elements -/

/-- The last two of the distances 1, 3, 7, … tried while a test holds; none is beyond `bound`. -/
def reach (test : Nat → Bool) (bound last distance : Nat) : Nat × Nat :=
  if distance < bound then
    if test distance then reach test bound distance (2 * distance + 1) else (last, distance)
  else (last, bound)
termination_by bound - distance

/-- The end of a list at which a merge works. -/
inductive Side where
  | front
  | back
  deriving DecidableEq

/-- How many elements in front of a list pass a test, where those that do stand in front. On the
back side the list is given back to front, and the halving goes by the places from the front. -/
def lead (side : Side) (test : α → Bool) (xs : List α) : Nat :=
  let data := xs.toArray
  let passes (i : Nat) : Bool := (data[i]?.map test).getD false
  if passes 0 then
    let (last, distance) := reach passes data.size 0 1
    match side with
    | .front => boundary passes (last + 1) distance
    | .back =>
      let first := data.size - distance
      data.size - boundary (fun i => !passes (data.size - 1 - i)) first (data.size - 1 - last)
  else 0

/-! ## Taking elements -/

/-- Wins in a row from which on blocks are worth while. -/
def blockWins : Nat := 7

/-- What is merged: both runs from the working side on, and what was taken from them, the last one
first. -/
structure Merge (α : Type) where
  first : List α
  second : List α
  taken : List α

/-- One by one, with the wins in a row of each run, or by blocks. -/
inductive Pace where
  | single (firstWins secondWins : Nat)
  | blocks

namespace Merge

variable (lt : α → α → Bool) (side : Side)

/-- Whether an element of the first run is taken before one of the second run. -/
def takesFirst (x y : α) : Bool :=
  match side with
  | .front => !lt y x
  | .back => lt y x

def finished (m : Merge α) : Bool :=
  match side with
  | .front => (m.first.drop 1).isEmpty || m.second.isEmpty
  | .back => (m.second.drop 1).isEmpty || m.first.isEmpty

/-- What was taken, the other run, and the spare one. -/
def result (m : Merge α) : List α :=
  match side with
  | .front => m.taken.reverse ++ m.second ++ m.first
  | .back => m.second.reverse ++ m.first.reverse ++ m.taken

def takeFirst (m : Merge α) (n : Nat) : Merge α :=
  ⟨m.first.drop n, m.second, (m.first.take n).reverse ++ m.taken⟩

def takeSecond (m : Merge α) (n : Nat) : Merge α :=
  ⟨m.first, m.second.drop n, (m.second.take n).reverse ++ m.taken⟩

/-- A block of the first run, an element of the second, a block of the second, an element of the
first; and the lengths of the blocks. It ends early where the merge is finished. -/
def takeBlocks (m : Merge α) : Merge α × Nat × Nat :=
  match m.second with
  | [] => (m, 0, 0)
  | y :: _ =>
    let n := lead side (fun x => takesFirst lt side x y) m.first
    let m := m.takeFirst n
    if m.finished side then (m, n, 0)
    else
      let m := m.takeSecond 1
      if m.finished side then (m, n, 0)
      else
        match m.first with
        | [] => (m, n, 0)
        | x :: _ =>
          let k := lead side (fun y => !takesFirst lt side x y) m.second
          let m := m.takeSecond k
          if m.finished side then (m, n, k) else (m.takeFirst 1, n, k)

/-- Merges on, with so many steps at most, to the result and the number of wins that are many. -/
def run : Nat → Nat → Pace → Merge α → List α × Nat
  | 0, wins, _, m => (m.result side, wins)
  | steps + 1, wins, pace, m =>
    if m.finished side then (m.result side, wins)
    else
      match pace with
      | .single firstWins secondWins =>
        match m.first, m.second with
        | x :: _, y :: _ =>
          let (m, firstWins, secondWins) :=
            if takesFirst lt side x y then (m.takeFirst 1, firstWins + 1, 0)
            else (m.takeSecond 1, 0, secondWins + 1)
          if m.finished side then (m.result side, wins)
          else if wins ≤ max firstWins secondWins then run steps (wins + 1) .blocks m
          else run steps wins (.single firstWins secondWins) m
        | _, _ => (m.result side, wins)
      | .blocks =>
        let wins := if 1 < wins then wins - 1 else wins
        let (m, n, k) := m.takeBlocks lt side
        if m.finished side then (m.result side, wins)
        else if blockWins ≤ max n k then run steps wins .blocks m
        else run steps (wins + 1) (.single 0 0) m

end Merge

/-! ## Two neighbouring runs -/

/-- Merges two runs. What the first begins with and what the second ends with stays in place if it
is there already. Of what is left the shorter run is the spare one, and the next element of the
other run is taken at once. -/
def mergeRuns (lt : α → α → Bool) (wins : Nat) (first second : List α) : List α × Nat :=
  match second with
  | [] => (first, wins)
  | y :: _ =>
    let n := lead .front (fun x => !lt y x) first
    let before := first.take n
    let first := first.drop n
    match first.getLast? with
    | none => (before ++ second, wins)
    | some x =>
      let k := second.length - lead .back (fun y => !lt y x) second.reverse
      let behind := second.drop k
      let second := second.take k
      let steps := first.length + second.length
      let (merged, wins) :=
        if second.isEmpty then (first, wins)
        else if first.length ≤ second.length then
          Merge.run lt .front steps wins (.single 0 0) ((Merge.mk first second []).takeSecond 1)
        else
          Merge.run lt .back steps wins (.single 0 0)
            ((Merge.mk first.reverse second.reverse []).takeFirst 1)
      (before ++ merged ++ behind, wins)

end Formula.Statistic
