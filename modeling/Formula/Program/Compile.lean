import Formula.Kernel.Basic
import Formula.Program.Basic
import Formula.Table.Basic
import Formula.Token.Sequence

/-!
# From tokens to programs

Operands go to the program as they come. An operator waits until its right operand is complete: it
is emitted when one comes that must not take that operand first, when its bracket closes, or at the
end.

## Folding

With folding on, an operator whose operands are the constants just emitted is computed at once, and
its value takes their place. Constants that stand at the end of the program when an operator is
emitted are exactly its operands, so nothing else has to be looked at.

## Texts

A text is a sequence of Unicode scalar values, and positions count these. Half of a surrogate pair
is no scalar value: a sequence of code points with one in it is not among the texts that are
compiled here, and nothing is said about it.
-/

namespace Formula

/-- What waits for a later token: an open bracket, or an operator. -/
inductive Pending where
  | bracket
  | op (o : Op)
  deriving DecidableEq

/-- How a formula is compiled: with which kernels, and whether constants are folded. -/
structure Folding where
  kernels : Kernels
  enabled : Bool

/-- The state between two tokens: what waits, the latest first; the program so far, the last
instruction first; and the table. -/
structure Compiler where
  pending : List Pending
  output : List Instr
  table : Table

/-! ## Emitting -/

/-- Appends an operator. A positive sign does nothing and leaves no trace. -/
def Folding.emit (F : Folding) (o : Op) (output : List Instr) : List Instr :=
  match o with
  | .unary .plus => output
  | .unary u =>
    match F.enabled, output with
    | true, .push x :: rest => .push (F.kernels.unary u x) :: rest
    | _, _ => .apply o :: output
  | .binary b =>
    match F.enabled, output with
    | true, .push y :: .push x :: rest => .push (F.kernels.binary b x y) :: rest
    | _, _ => .apply o :: output

/-- Emits the waiting operators that precede the incoming one, down to an open bracket. -/
def Folding.emitPreceding (F : Folding) (incoming : Op) :
    List Pending → List Instr → List Pending × List Instr
  | .op waiting :: pending, output =>
    if waiting.precedes incoming then F.emitPreceding incoming pending (F.emit waiting output)
    else (.op waiting :: pending, output)
  | pending, output => (pending, output)

/-- Emits the waiting operators down to the open bracket and takes it away; there may be none. -/
def Folding.closeBracket (F : Folding) :
    List Pending → List Instr → Option (List Pending × List Instr)
  | [], _ => none
  | .bracket :: pending, output => some (pending, output)
  | .op o :: pending, output => F.closeBracket pending (F.emit o output)

/-- Emits everything that waits; an open bracket must not be left. -/
def Folding.emitAll (F : Folding) : List Pending → List Instr → Option (List Instr)
  | [], output => some output
  | .bracket :: _, _ => none
  | .op o :: pending, output => F.emitAll pending (F.emit o output)

/-! ## Taking tokens -/

namespace Compiler

def start (table : Table) : Compiler := ⟨[], [], table⟩

/-- Takes one token; a close bracket without an open one is an error. -/
def step (F : Folding) (c : Compiler) (t : Located) : Except CompileError Compiler :=
  match t.token with
  | .number v => .ok { c with output := .push v :: c.output }
  | .name word =>
    let (slot, table) := c.table.slotFor word
    .ok { c with output := .load slot word :: c.output, table }
  | .op o =>
    let (pending, output) := F.emitPreceding o c.pending c.output
    .ok { c with pending := .op o :: pending, output }
  | .openBracket => .ok { c with pending := .bracket :: c.pending }
  | .closeBracket =>
    match F.closeBracket c.pending c.output with
    | some (pending, output) => .ok { c with pending, output }
    | none => .error ⟨.unmatchedCloseBracket, t.start, t.start + 1, some ")"⟩

/-- Takes tokens up to the first error, which leaves the state before it. -/
def run (F : Folding) (c : Compiler) : List Located → Compiler × Option CompileError
  | [] => (c, none)
  | t :: rest =>
    match c.step F t with
    | .ok c => c.run F rest
    | .error e => (c, some e)

/-- The program, when no token is left. An operand must not be missing, no text may be left, and
every bracket must be closed. -/
def finish (F : Folding) (c : Compiler) : TokenEnd → Except CompileError Program
  | .failed e => .error e
  | .stopped .operand cursor => .error (cursor.error .operandExpected cursor.rest.length)
  | .stopped .operator cursor =>
    if cursor.rest ≠ [] then .error (cursor.error .unexpectedInput cursor.rest.length)
    else match F.emitAll c.pending c.output with
      | some output => .ok output.reverse
      | none => .error (cursor.error .missingCloseBracket 0)

end Compiler

/-! ## Texts -/

/-- A program or an error, and in both cases the table with the names that were read. -/
structure Compiled where
  table : Table
  program : Except CompileError Program

/-- Compiles a text over a table. The text has no lone surrogates, as they are no characters. -/
def compile (F : Folding) (text : String) (table : Table) : Compiled :=
  let tokens := Tokens.ofText text
  match (Compiler.start table).run F tokens.list with
  | (c, some e) => ⟨c.table, .error e⟩
  | (c, none) => ⟨c.table, c.finish F tokens.ending⟩

/-- One line about a compilation. -/
def Compiled.summary (c : Compiled) (text : String) : String :=
  match c.program with
  | .ok p => "compiled " ++ Text.quoted text ++ " into " ++ toString p.length ++ " instructions"
  | .error e => "compile failed for " ++ Text.quoted text ++ ": " ++ e.message

end Formula
