import Formula.Keyword
import Formula.Program.Compile
import Formula.Tensor.Broadcast

/-!
# Expressions

An expression is a text compiled once, with variables of its own. Evaluating it any number of times
changes nothing; its variables change only when they are set. A name that the text does not mention
is ignored when it is set, and so is a column for it. By keyword, every name but the one of the
receiver can be given.
-/

namespace Formula

/-- What compiling a text yields: the program, and the table with its variables not yet set. -/
structure Template where
  program : Program
  table : Table

/-- Compiles a text over the constants. -/
def Template.ofText (K : Kernels) (fold : Bool) (text : String) : Except CompileError Template :=
  let c := compile ⟨K, fold⟩ text .withConstants
  match c.program with
  | .ok program => .ok ⟨program, c.table⟩
  | .error e => .error e

/-- A text, its program, and the values of its variables. -/
structure Expression where
  source : String
  program : Program
  table : Table

namespace Expression

def ofTemplate (source : String) (t : Template) : Expression := ⟨source, t.program, t.table⟩

def ofText (K : Kernels) (fold : Bool) (text : String) : Except CompileError Expression :=
  match Template.ofText K fold text with
  | .ok t => .ok (ofTemplate text t)
  | .error e => .error e

/-! ## Variables -/

/-- The names that the program loads and that are no constants, in the order of their first use. -/
def freeVariables (e : Expression) : List String :=
  e.program.loadedNames.filter fun name => !Table.isConstant name

def set (e : Expression) (name : String) (v : Double) : Expression :=
  { e with table := e.table.set name v }

def setAll (e : Expression) (bindings : List (String × Double)) : Expression :=
  { e with table := e.table.setAll bindings }

def value (e : Expression) (name : String) : Except UnknownVariable Double := e.table.value name

def lookup (e : Expression) (name : String) : Option Double := e.table.lookup name

/-! ## Evaluation -/

def eval (e : Expression) (K : Kernels) : Except RunError Double :=
  K.scalar.eval (slotsOf e.table.values) e.program

/-- Evaluates `n` times; there is no result of no evaluation. -/
def evalTimes (e : Expression) (K : Kernels) (n : Nat) : Option (Except RunError Double) :=
  K.scalar.lastOfRuns (slotsOf e.table.values) e.program n [] none

/-- The result of the last of `n` evaluations, without those that must be alike. -/
def lastResult (e : Expression) (K : Kernels) (n : Nat) : Option (Except RunError Double) :=
  K.scalar.lastResult (slotsOf e.table.values) e.program n

theorem evalTimes_eq_lastResult (e : Expression) (K : Kernels) (n : Nat) :
    e.evalTimes K n = e.lastResult K n := Arithmetic.lastOfRuns_nil _ _ _ n

/-- The columns of the names that the expression knows, by slot. -/
def columnSlots (e : Expression) (columns : List (String × Tensor Double)) :
    List (Nat × Tensor Double) :=
  columns.filterMap fun c => (e.table.slot? c.1).map fun slot => (slot, c.2)

/-- Evaluates over columns in place of the values of their variables. -/
def evalBatch (e : Expression) (K : Kernels) (columns : List (String × Tensor Double)) :
    Except RunError (Tensor Double) :=
  e.program.evalBatch K e.table.values (e.columnSlots columns)

/-! ## Keywords -/

def callMethod : String := "Expression.__call__"

def batchMethod : String := "Expression.evaluate_batch"

/-- Sets the variables that are given by keyword, and evaluates. A keyword for the receiver prevents
both. -/
def call (e : Expression) (K : Kernels) (keywords : List (String × Double)) :
    Except ReceiverClash (Expression × Except RunError Double) :=
  (bindKeywords callMethod keywords).map fun bindings =>
    (e.setAll bindings, (e.setAll bindings).eval K)

/-- Evaluates over the columns that are given by keyword. -/
def callBatch (e : Expression) (K : Kernels) (keywords : List (String × Tensor Double)) :
    Except ReceiverClash (Except RunError (Tensor Double)) :=
  (bindKeywords batchMethod keywords).map fun columns => e.evalBatch K columns

/-! ## Text -/

/-- How an expression is shown. -/
def text (e : Expression) : String := "Expression(" ++ Text.quoted e.source ++ ")"

end Expression

end Formula
