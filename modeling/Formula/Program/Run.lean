import Formula.Kernel.Basic
import Formula.Program.Basic
import Formula.Program.RunError

/-!
# Running programs

The machine takes its values from an arithmetic, which says what a constant is and what the
operators do. Numbers, arrays, functions of arguments and derivatives are different arithmetics for
the same machine.

A run may begin on any stack. It takes one value from the top at the end; what it leaves below is
part of its outcome, also when it fails.
-/

namespace Formula

/-- What a machine needs to know of its values. -/
structure Arithmetic (α : Type) where
  constant : Double → α
  unary : UnaryOp → α → α
  binary : BinaryOp → α → α → Except RunError α

/-- A result or an error, with the stack that is left, topmost value first. -/
structure Outcome (α : Type) where
  result : Except RunError α
  stack : List α

namespace Arithmetic

variable {α : Type}

/-- Applies an operator to the topmost values, the right operand being on top. A binary operator
that finds one value has taken it when it fails. -/
def apply (A : Arithmetic α) : Op → List α → Except (RunError × List α) (List α)
  | .unary u, x :: stack => .ok (A.unary u x :: stack)
  | .binary b, y :: x :: stack =>
    match A.binary b x y with
    | .ok z => .ok (z :: stack)
    | .error e => .error (e, stack)
  | _, _ => .error (.emptyStack, [])

/-- One instruction; `slots` gives the value of a slot. -/
def step (A : Arithmetic α) (slots : Nat → Option α) :
    Instr → List α → Except (RunError × List α) (List α)
  | .push v, stack => .ok (A.constant v :: stack)
  | .load slot _, stack =>
    match slots slot with
    | some v => .ok (v :: stack)
    | none => .error (.noSlot slot, stack)
  | .apply o, stack => A.apply o stack

/-- The instructions of a program, one after the other, up to the first that fails. -/
def exec (A : Arithmetic α) (slots : Nat → Option α) :
    Program → List α → Except (RunError × List α) (List α)
  | [], stack => .ok stack
  | i :: program, stack =>
    match A.step slots i stack with
    | .ok stack => A.exec slots program stack
    | .error e => .error e

/-- A whole run: the instructions, and then the topmost value is taken. -/
def run (A : Arithmetic α) (slots : Nat → Option α) (p : Program) (stack : List α) : Outcome α :=
  match A.exec slots p stack with
  | .ok (x :: stack) => ⟨.ok x, stack⟩
  | .ok [] => ⟨.error .emptyStack, []⟩
  | .error (e, left) => ⟨.error e, left⟩

/-- A run on an empty stack. -/
def eval (A : Arithmetic α) (slots : Nat → Option α) (p : Program) : Except RunError α :=
  (A.run slots p []).result

/-- Runs on one stack, each on what the one before has left, and the stack at the end. -/
def runs (A : Arithmetic α) (slots : Nat → Option α) (p : Program) :
    Nat → List α → List (Except RunError α) × List α
  | 0, stack => ([], stack)
  | n + 1, stack =>
    let first := A.run slots p stack
    let (results, stack) := A.runs slots p n first.stack
    (first.result :: results, stack)

/-- The result of the last of `n` runs on one stack, each on what the one before has left. -/
def lastOfRuns (A : Arithmetic α) (slots : Nat → Option α) (p : Program) :
    Nat → List α → Option (Except RunError α) → Option (Except RunError α)
  | 0, _, last => last
  | n + 1, stack, _ =>
    let outcome := A.run slots p stack
    A.lastOfRuns slots p n outcome.stack (some outcome.result)

/-- The result of the last of `n` runs that begin on an empty stack. Where the first one leaves
nothing, all of them are alike, and it stands for the last. -/
def lastResult (A : Arithmetic α) (slots : Nat → Option α) (p : Program) :
    Nat → Option (Except RunError α)
  | 0 => none
  | n + 1 =>
    let first := A.run slots p []
    if first.stack.isEmpty then some first.result
    else A.lastOfRuns slots p n first.stack (some first.result)

/-- A run that leaves nothing may be repeated. -/
theorem lastOfRuns_of_isEmpty (A : Arithmetic α) (slots : Nat → Option α) (p : Program) (n : Nat)
    (h : (A.run slots p []).stack.isEmpty = true) :
    A.lastOfRuns slots p n [] (some (A.run slots p []).result)
      = some (A.run slots p []).result := by
  induction n with
  | zero => rfl
  | succ n ih => rw [lastOfRuns, List.isEmpty_iff.1 h, ih]

/-- **One run stands for all where it leaves nothing.** -/
theorem lastOfRuns_nil (A : Arithmetic α) (slots : Nat → Option α) (p : Program) (n : Nat) :
    A.lastOfRuns slots p n [] none = A.lastResult slots p n := by
  cases n with
  | zero => rfl
  | succ n =>
    rw [lastOfRuns, lastResult]
    split
    · next h => rw [List.isEmpty_iff.1 h, A.lastOfRuns_of_isEmpty slots p n h]
    · rfl

/-! ## Programs in parts -/

/-- Instructions in two parts run one part on what the other leaves. -/
theorem exec_append (A : Arithmetic α) (slots : Nat → Option α) (p q : Program) (stack : List α) :
    A.exec slots (p ++ q) stack = A.exec slots p stack >>= A.exec slots q := by
  induction p generalizing stack with
  | nil => rfl
  | cons i p ih =>
    rw [List.cons_append, exec, exec]
    cases A.step slots i stack with
    | ok stack => exact ih stack
    | error e => rfl

end Arithmetic

/-- Arithmetic on single doubles. -/
def Kernels.scalar (K : Kernels) : Arithmetic Double where
  constant := id
  unary := K.unary
  binary b x y := .ok (K.binary b x y)

/-- The slots of a list of values. -/
def slotsOf {α : Type} (values : List α) (slot : Nat) : Option α := values[slot]?

end Formula
