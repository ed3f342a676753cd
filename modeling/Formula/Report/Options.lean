import Formula.Text.Integer

/-!
# Options of the report

The command line takes a number of evaluations per formula, a number of samples, and whether to
write the report as data. Options may be abbreviated as long as one option alone begins that way,
and the last value of a repeated option counts.

## How it works

First every argument up to `--` is classified on its own; an ambiguous abbreviation ends everything
there. Then the arguments are taken in order. The first that asks for help or cannot be used
decides; arguments that belong to nothing are refused only at the end.
-/

namespace Formula.Report

structure Options where
  trials : Int
  samples : Int
  asData : Bool
  deriving DecidableEq

def Options.default : Options := ⟨10000, 1, false⟩

/-- What a command line asks for. -/
inductive Invocation where
  | run (options : Options)
  | help
  | usageError
  deriving DecidableEq

inductive Flag where
  | help
  | trials
  | samples
  | json
  deriving DecidableEq

/-- The names of the options, to be written behind two dashes. -/
def Flag.names : List (List Char × Flag) :=
  [("help".toList, .help), ("trials".toList, .trials), ("samples".toList, .samples),
   ("json".toList, .json)]

/-- The options whose name begins in this way. -/
def Flag.beginningWith (start : List Char) : List Flag :=
  (Flag.names.filter fun n => start.isPrefixOf n.1).map Prod.snd

/-- A classified argument: a value, an option with the value that is joined to it, `-h` with what is
joined to it, or what looks like an option and is none. -/
inductive Argument where
  | value (text : String)
  | flag (flag : Flag) (joined : Option String)
  | shortHelp (letters : List Char)
  | unknown
  deriving DecidableEq

/-! ## Classification -/

/-- Digits of any script, one at least. -/
def isDigits (cs : List Char) : Bool := !cs.isEmpty && cs.all fun c => (Text.digitValue? c).isSome

/-- A minus sign with digits, or with a point and digits behind it; a line feed may end it. -/
def looksNegative (cs : List Char) : Bool :=
  match cs with
  | '-' :: number =>
    let number := if number.getLast? = some '\n' then number.dropLast else number
    let whole := number.takeWhile fun c => (Text.digitValue? c).isSome
    isDigits number || match number.dropWhile fun c => (Text.digitValue? c).isSome with
      | '.' :: fraction => isDigits fraction && isDigits ('0' :: whole)
      | _ => false
  | _ => false

/-- What stands before the first equals sign, and what behind it. -/
def splitJoined (cs : List Char) : List Char × Option String :=
  match cs.dropWhile (· ≠ '=') with
  | [] => (cs, none)
  | _ :: joined => (cs.takeWhile (· ≠ '='), some (String.ofList joined))

/-- Classifies what stands behind `-h`; an equals sign may come first. -/
def classifyShort : List Char → Argument
  | [] => .flag .help none
  | '=' :: letters => .shortHelp letters
  | letters => .shortHelp letters

/-- Classifies one argument; nothing if it is an ambiguous abbreviation. What looks like an option
and is none may still be a value: a negative number, or a text with a blank. -/
def classify (text : String) : Option Argument :=
  let cs := text.toList
  match cs with
  | '-' :: 'h' :: letters => some (classifyShort letters)
  | '-' :: '-' :: name =>
    let (start, joined) := splitJoined name
    match Flag.beginningWith start with
    | [f] => some (.flag f joined)
    | [] => some (if cs.contains ' ' then .value text else .unknown)
    | _ => none
  | '-' :: _ :: _ => some (if looksNegative cs || cs.contains ' ' then .value text else .unknown)
  | _ => some (.value text)

/-- Classifies the arguments; from `--` on there are no options, and `--` itself belongs to
nothing. -/
def classifyAll : List String → Option (List Argument)
  | [] => some []
  | text :: rest =>
    if text = "--" then some (.unknown :: rest.map .value)
    else
      match classify text, classifyAll rest with
      | some a, some as => some (a :: as)
      | _, _ => none

/-! ## Taking arguments -/

/-- Only `h` itself may be joined to `-h`, once or more. -/
def helpLetters (letters : List Char) : Invocation :=
  if !letters.isEmpty && letters.all (· = 'h') then .help else .usageError

/-- Sets the number that a flag stands for. -/
def Options.withNumber (o : Options) (f : Flag) (n : Int) : Options :=
  match f with
  | .trials => { o with trials := n }
  | .samples => { o with samples := n }
  | .help | .json => o

/-- Takes the arguments in order; `leftOver` says whether one belonged to nothing. -/
def take (o : Options) (leftOver : Bool) : List Argument → Invocation
  | [] => if leftOver then .usageError else .run o
  | .value _ :: rest | .unknown :: rest => take o true rest
  | .shortHelp letters :: _ => helpLetters letters
  | .flag .help none :: _ => .help
  | .flag .json none :: rest => take { o with asData := true } leftOver rest
  | .flag .help (some _) :: _ | .flag .json (some _) :: _ => .usageError
  | .flag f (some text) :: rest =>
    match Text.integer text with
    | .ok n => take (o.withNumber f n) leftOver rest
    | .error _ => .usageError
  | .flag f none :: .value text :: rest =>
    match Text.integer text with
    | .ok n => take (o.withNumber f n) leftOver rest
    | .error _ => .usageError
  | .flag _ none :: _ => .usageError

/-- What the arguments of a command line ask for. -/
def Invocation.ofArguments (args : List String) : Invocation :=
  match classifyAll args with
  | some as => take .default false as
  | none => .usageError

end Formula.Report
