import Formula.Report.Data

/-!
# The loop over the lines

A report is made while time passes: each sample is timed, and a row is printed before the next line
is looked at. What this takes is left to the surroundings of the report, which are a parameter. If
there is no rate for a line, the report ends there, and what was printed before stays printed.
-/

namespace Formula.Report

/-- What a report takes from outside. -/
structure Surroundings (m : Type → Type) where
  /-- Carries out an evaluation, and gives the nanoseconds that have passed meanwhile. -/
  timed : (Unit → Except LineError (Option Double)) → m (Except LineError (Option Double) × Nat)
  print : String → m Unit

namespace Surroundings

variable {m : Type → Type} [Monad m] (outside : Surroundings m) (K : Kernels) (s : Settings)
  (o : Options)

/-- The result of one sample, and its rate. -/
def sample (e : Expression) :
    ExceptT Statistic.RateError m (Except LineError (Option Double) × Double) := do
  let (outcome, nanoseconds) ← outside.timed fun _ => result (e.evalTimes K o.trials.toNat)
  let rate ← ExceptT.mk (pure (sampleRate o nanoseconds))
  return (outcome, rate)

/-- A number of samples, one after the other. -/
def samples (e : Expression) :
    Nat → ExceptT Statistic.RateError m (List (Except LineError (Option Double) × Double))
  | 0 => return []
  | n + 1 => do
    let first ← outside.sample K o e
    let rest ← samples e n
    return first :: rest

/-- The row of a line, with the result of the last sample and the median of all rates. -/
def row (cache : CompileCache) (line : String) :
    ExceptT Statistic.RateError m (CompileCache × TimedRow) :=
  match prepare cache K s line with
  | (cache, .error e) => return (cache, ⟨⟨line, .error (.compile e)⟩, .nan⟩)
  | (cache, .ok e) => do
    let taken ← outside.samples K o e (max 1 o.samples).toNat
    let outcome := (taken.getLast?.map Prod.fst).getD (.ok none)
    return (cache, ⟨⟨line, outcome⟩, medianRate (taken.map Prod.snd)⟩)

/-- Prints lines in order. -/
def printAll : List String → ExceptT Statistic.RateError m Unit
  | [] => return ()
  | l :: rest => do
    outside.print l
    printAll rest

/-- The rows of lines, each printed at once. -/
def rowsFrom :
    CompileCache → List String → ExceptT Statistic.RateError m (List TimedRow)
  | _, [] => return []
  | cache, line :: rest => do
    let (cache, row) ← outside.row K s o cache line
    outside.printAll (row.printed o)
    let rows ← rowsFrom cache rest
    return row :: rows

/-- The report on a text. -/
def report (host : Host) (text : String) : ExceptT Statistic.RateError m (List TimedRow) := do
  let rows ← outside.rowsFrom K s o (.empty s.cacheCapacity) (formulas text)
  outside.printAll (closing host o rows)
  return rows

end Surroundings

end Formula.Report
