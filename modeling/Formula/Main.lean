import Formula.Report.Loop

/-!
# Command line

Reads formulas from standard input, one a line, up to the first empty line. Then each is evaluated
with `a`, `b`, `c` and `d` set to 1, 2, 3 and 4, and its result and the rate of evaluation are
printed. The exit code is 1 if a formula has no result, and 2 if the arguments cannot be used.
-/

namespace Formula.Report

def usage : String :=
  "usage: formula [-h] [--trials TRIALS] [--samples SAMPLES] [--json]\n"

def help : String :=
  usage ++ "
Read expressions from stdin and report evaluation throughput.

Each line is compiled once, bound with a=1, b=2, c=3, d=4 and then
evaluated TRIALS times. An empty line (or end of input) stops the run.

options:
  -h, --help         show this help message and exit
  --trials TRIALS    evaluations per expression
  --samples SAMPLES  timing samples per expression (median reported)
  --json             emit a JSON report instead of text
"

/-- Evaluates a delayed value now, so that a clock can be read before and after. -/
@[noinline] def force {α : Type} (delayed : Unit → α) : BaseIO α := return delayed ()

/-- The surroundings of a program: the clock of the machine, and its output. -/
def machine : Surroundings IO where
  timed delayed := do
    let start ← IO.monoNanosNow
    let outcome ← force delayed
    let stop ← IO.monoNanosNow
    return (outcome, stop - start)
  print := IO.println

/-- The text of a stream up to its first empty line, and behind what was read before. -/
partial def readText (input : IO.FS.Stream) (text : String) : IO String := do
  let line ← input.getLine
  if (stripLineEnd line.toList).isEmpty then return text
  readText input (text ++ line)

/-- What is known of a host, by the variables of the environment that it is read from. -/
def hostVariables : List (String × String) :=
  [("platform", "OSTYPE"), ("machine", "HOSTTYPE"), ("name", "HOSTNAME")]

def hostOfEnvironment : IO Host :=
  hostVariables.mapM fun v => do return (v.1, (← IO.getEnv v.2).getD "unknown")

/-- Carries out what the arguments ask for, and gives the exit code. -/
def execute (s : Settings) : Invocation → IO Nat
  | .help => do
    IO.print help
    return 0
  | .usageError => do
    IO.eprint usage
    return 2
  | .run o => do
    let text ← readText (← IO.getStdin) ""
    match ← (machine.report .standard s o (← hostOfEnvironment) text).run with
    | .ok rows => return exitCode (rows.map TimedRow.row)
    | .error e => throw (IO.userError e.message)

/-- The settings of the environment the program runs in. -/
def environmentSettings : IO (Except SettingsError Settings) := do
  let names := [Settings.foldingVariable, Settings.capacityVariable]
  let env ← names.filterMapM fun name => do return (← IO.getEnv name).map fun value => (name, value)
  return Settings.ofEnvironment env

end Formula.Report

def main (args : List String) : IO UInt32 := do
  match ← Formula.Report.environmentSettings with
  | .error e =>
    IO.eprintln e.message
    return 1
  | .ok s =>
    let code ← Formula.Report.execute s (.ofArguments args)
    return .ofNat code
