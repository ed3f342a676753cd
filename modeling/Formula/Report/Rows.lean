import Formula.Double.Text
import Formula.Report.Options
import Formula.Session.CompileCache
import Formula.Session.Settings
import Formula.Statistic.Percentile

/-!
# The report

A report has one row for each line of a text up to the first empty one. A line is a formula, which
is evaluated a number of times with `a`, `b`, `c` and `d` set to 1, 2, 3 and 4. All lines go
through one cache of compiled formulas. There is no report if a line compiles and the number of its
evaluations, which its rate is computed from, is too large for a double.
-/

namespace Formula.Report

/-! ## Lines -/

/-- A line without the line ends behind it. -/
def stripLineEnd (line : List Char) : List Char :=
  (line.reverse.dropWhile fun c => c = '\r' || c = '\n').reverse

/-- Splits at each line feed, which stays at the end of its line; `line` holds the characters of the
line so far, last one first. -/
def splitLines (line : List Char) : List Char → List (List Char)
  | [] => if line = [] then [] else [line.reverse]
  | c :: rest =>
    if c = '\n' then ((c :: line).reverse) :: splitLines [] rest else splitLines (c :: line) rest

/-- The lines before the first empty one. -/
def formulas (text : String) : List String :=
  (((splitLines [] text.toList).map stripLineEnd).takeWhile (· ≠ [])).map String.ofList

/-! ## Rows -/

/-- Why a line has no result. -/
inductive LineError where
  | compile (error : CompileError)
  | run (error : RunError)
  deriving DecidableEq

def LineError.message : LineError → String
  | .compile e => e.message
  | .run e => e.message

/-- A line with its result, which is missing if it was not evaluated at all. -/
structure Row where
  source : String
  outcome : Except LineError (Option Double)

/-- The values of the variables. -/
def bindings : List (String × Double) :=
  [("a", .ofNat 1), ("b", .ofNat 2), ("c", .ofNat 3), ("d", .ofNat 4)]

/-- The expression of a line, its variables set. -/
def prepare (cache : CompileCache) (K : Kernels) (s : Settings) (line : String) :
    CompileCache × Except CompileError Expression :=
  let (cache, built) := cache.construct K line (s.fold none)
  (cache, built.map fun e => e.setAll bindings)

/-- The result of a line, from the last of its evaluations if there is one. -/
def result : Option (Except RunError Double) → Except LineError (Option Double)
  | none => .ok none
  | some (.ok v) => .ok (some v)
  | some (.error e) => .error (.run e)

/-- The results of the samples, at least one; the last of them counts. -/
def sampled (e : Expression) (K : Kernels) (o : Options) : Except LineError (Option Double) :=
  let sample := result (e.lastResult K o.trials.toNat)
  (List.replicate (max 1 o.samples).toNat ()).foldl (fun _ _ => sample) (.ok none)

/-- The row of a line. A line that compiles also has a rate, so its trials have to be a count. -/
def rowOf (cache : CompileCache) (K : Kernels) (s : Settings) (o : Options) (line : String) :
    Except Statistic.RateError (CompileCache × Row) :=
  match prepare cache K s line with
  | (cache, .ok e) => (Statistic.count o.trials).map fun _ => (cache, ⟨line, sampled e K o⟩)
  | (cache, .error e) => .ok (cache, ⟨line, .error (.compile e)⟩)

/-- The rows of lines, in order. -/
def rowsFrom (K : Kernels) (s : Settings) (o : Options) :
    CompileCache → List String → Except Statistic.RateError (List Row)
  | _, [] => .ok []
  | cache, line :: rest =>
    match rowOf cache K s o line with
    | .ok (cache, row) => (rowsFrom K s o cache rest).map (row :: ·)
    | .error e => .error e

/-- The rows of a text. -/
def rows (K : Kernels) (s : Settings) (o : Options) (text : String) :
    Except Statistic.RateError (List Row) :=
  rowsFrom K s o (.empty s.cacheCapacity) (formulas text)

/-! ## Output -/

/-- The text of a result. -/
def resultText : Option Double → String
  | some v => v.text
  | none => "None"

/-- The lines of a row: its error, or its result and the rate. -/
def Row.lines (row : Row) (rate : String) : List String :=
  match row.outcome with
  | .ok v => [resultText v, rate ++ " calculations per second"]
  | .error e => [e.message]

def Row.isError (row : Row) : Bool :=
  match row.outcome with
  | .ok _ => false
  | .error _ => true

/-- 1 if a line has no result because of an error, else 0. -/
def exitCode (rows : List Row) : Nat := if rows.any Row.isError then 1 else 0

end Formula.Report
