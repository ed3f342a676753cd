import Formula.Double.Basic
import Formula.Statistic.Merge

/-!
# Sorting doubles

Doubles are sorted into ascending order, equal ones keeping their order. Without NaN that determines
the result, whichever way it is found.

Where NaN takes part there is no order to establish, and the places are those that the comparisons
lead to. The list is then cut into runs from left to right, and neighbouring runs are merged. Which
runs are merged first depends on their lengths only: the boundary between two runs has a *power*,
the depth at which the middles of the two runs part when the list is halved again and again, and
boundaries of greater power are merged away before one of smaller power is left behind.
-/

namespace Formula.Statistic

variable {α : Type}

/-! ## Runs that wait -/

/-- A run with its place in the list, and the power of the boundary behind it. -/
structure Waiting (α : Type) where
  run : List α
  start : Nat
  power : Nat

/-- The depth at which two fractions `a / n` and `b / n` part in binary. -/
def partingDepth (n : Nat) : Nat → Nat → Nat → Nat
  | 0, _, _ => 0
  | steps + 1, a, b =>
    if n ≤ a then 1 + partingDepth n steps (2 * (a - n)) (2 * (b - n))
    else if n ≤ b then 1
    else 1 + partingDepth n steps (2 * a) (2 * b)

/-- The power of the boundary between a run and the next one, in a list of length `n`. -/
def boundaryPower (n start length next : Nat) : Nat :=
  partingDepth n (n + 1) (2 * start + length) (2 * start + length + length + next)

/-- Runs that wait, the last one first, and the wins that are many. -/
structure Pile (α : Type) where
  runs : List (Waiting α)
  wins : Nat

namespace Pile

variable (lt : α → α → Bool)

/-- Merges the two last runs. -/
def mergeLast (p : Pile α) : Pile α :=
  match p.runs with
  | second :: first :: rest =>
    let (run, wins) := mergeRuns lt p.wins first.run second.run
    ⟨{ first with run } :: rest, wins⟩
  | _ => p

/-- Merges the two runs before the last one. -/
def mergeBeforeLast (p : Pile α) : Pile α :=
  match p.runs with
  | last :: second :: first :: rest =>
    let (run, wins) := mergeRuns lt p.wins first.run second.run
    ⟨last :: { first with run } :: rest, wins⟩
  | _ => p

/-- Merges as long as the boundary before the last run has a greater power. -/
def settle (power : Nat) : Nat → Pile α → Pile α
  | 0, p => p
  | steps + 1, p =>
    match p.runs with
    | _ :: first :: _ => if power < first.power then settle power steps (p.mergeLast lt) else p
    | _ => p

/-- Adds a run at the end of those that wait, in a list of length `n`. -/
def push (n : Nat) (run : List α) (p : Pile α) : Pile α :=
  match p.runs with
  | [] => ⟨[⟨run, 0, 0⟩], p.wins⟩
  | last :: _ =>
    let power := boundaryPower n last.start last.run.length run.length
    let start := last.start + last.run.length
    let p := p.settle lt power p.runs.length
    match p.runs with
    | [] => p
    | last :: rest => ⟨⟨run, start, 0⟩ :: { last with power } :: rest, p.wins⟩

/-- Merges all runs; the last one waits while the run before it is merged into a shorter one. -/
def mergeAll : Nat → Pile α → List α
  | 0, p => (p.runs.reverse.map Waiting.run).flatten
  | steps + 1, p =>
    match p.runs with
    | last :: _ :: first :: _ =>
      if first.run.length < last.run.length then mergeAll steps (p.mergeBeforeLast lt)
      else mergeAll steps (p.mergeLast lt)
    | [_, _] => mergeAll steps (p.mergeLast lt)
    | [w] => w.run
    | [] => []

end Pile

/-! ## The whole list -/

/-- Halves a length until it is below 64, and adds 1 if a half was not whole. -/
def halvedLength (n carry : Nat) : Nat :=
  if n < 64 then n + carry else halvedLength (n / 2) (max carry (n % 2))
termination_by n
decreasing_by omega

/-- The length that the runs of a list are made up to: at most 64, and such that a list has a power
of two of them or just below. -/
def runLength (n : Nat) : Nat := halvedLength n 0

/-- Cuts a list into runs and adds them to those that wait. -/
def pileUp (lt : α → α → Bool) (n : Nat) : Nat → List α → Pile α → Pile α
  | 0, _, p => p
  | _, [], p => p
  | steps + 1, xs, p =>
    let (run, rest) := longRun lt (runLength n) xs
    pileUp lt n steps rest (p.push lt n run)

/-- Sorts by runs. -/
def sortByRuns (lt : α → α → Bool) (xs : List α) : List α :=
  let p := pileUp lt xs.length xs.length xs ⟨[], blockWins⟩
  p.mergeAll lt p.runs.length

/-- Sorts doubles. -/
def sort (xs : List Double) : List Double :=
  if xs.any Double.isNaN then sortByRuns Double.lt xs else xs.mergeSort fun x y => !y.lt x

end Formula.Statistic
