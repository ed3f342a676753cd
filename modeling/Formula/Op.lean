/-!
# Operators

Binary operators stand between their operands, signs and named functions before, and the factorial
after it. How tightly an operator binds is a number; among equal numbers an operator groups to the
left or to the right.
-/

namespace Formula

/-! ## Kinds -/

inductive BinaryOp where
  | add
  | subtract
  | multiply
  | divide
  | power
  deriving DecidableEq

/-- The functions that are written by name. -/
inductive NamedFunction where
  | sqrt
  | sin
  | cos
  | tan
  | asin
  | acos
  | atan
  | log
  deriving DecidableEq

inductive UnaryOp where
  | plus
  | minus
  | factorial
  | call (f : NamedFunction)
  deriving DecidableEq

inductive Op where
  | unary (op : UnaryOp)
  | binary (op : BinaryOp)
  deriving DecidableEq

inductive Associativity where
  | left
  | right
  deriving DecidableEq

/-! ## Binding -/

namespace Op

def arity : Op → Nat
  | .unary _ => 1
  | .binary _ => 2

def isBinary : Op → Bool
  | .unary _ => false
  | .binary _ => true

/-- A higher priority binds tighter. Signs, functions and the factorial bind alike. -/
def priority : Op → Nat
  | .binary .add | .binary .subtract => 1
  | .binary .multiply | .binary .divide => 2
  | .binary .power => 3
  | .unary _ => 4

/-- What stands at one priority; the first operator of a priority names it. -/
def priorityName (o : Op) : String :=
  match o.priority with
  | 1 => "ADD"
  | 2 => "MULTIPLY"
  | 3 => "POWER"
  | _ => "FUNCTION"

def associativity : Op → Associativity
  | .binary .power | .unary _ => .right
  | .binary _ => .left

/-- Whether an operator that is waiting takes its operands before `incoming` begins: it binds
tighter, or as tightly and `incoming` groups to the left. -/
def precedes (waiting incoming : Op) : Bool :=
  match incoming.associativity with
  | .left => incoming.priority ≤ waiting.priority
  | .right => incoming.priority < waiting.priority

end Op

/-! ## Spelling -/

def NamedFunction.all : List NamedFunction := [.sqrt, .sin, .cos, .tan, .asin, .acos, .atan, .log]

def NamedFunction.symbol : NamedFunction → String
  | .sqrt => "sqrt"
  | .sin => "sin"
  | .cos => "cos"
  | .tan => "tan"
  | .asin => "asin"
  | .acos => "acos"
  | .atan => "atan"
  | .log => "log"

/-- The function a word names. -/
def NamedFunction.ofWord? (word : String) : Option NamedFunction :=
  NamedFunction.all.find? fun f => f.symbol = word

def BinaryOp.all : List BinaryOp := [.add, .subtract, .multiply, .divide, .power]

def BinaryOp.char : BinaryOp → Char
  | .add => '+'
  | .subtract => '-'
  | .multiply => '*'
  | .divide => '/'
  | .power => '^'

/-- The binary operator a character stands for. -/
def BinaryOp.ofChar? (c : Char) : Option BinaryOp :=
  BinaryOp.all.find? fun b => b.char = c

namespace Op

/-- How an operator is written in a formula. -/
def symbol : Op → String
  | .binary b => String.singleton b.char
  | .unary .plus => "+"
  | .unary .minus => "-"
  | .unary .factorial => "!"
  | .unary (.call f) => f.symbol

/-! ## Names -/

/-- All operators. -/
def all : List Op :=
  BinaryOp.all.map .binary
    ++ [.unary .plus, .unary .minus, .unary .factorial]
    ++ NamedFunction.all.map fun f => .unary (.call f)

/-- The name of the kind, which tells apart what a symbol alone does not. -/
def name : Op → String
  | .binary .add => "add"
  | .binary .subtract => "subtract"
  | .binary .multiply => "multiply"
  | .binary .divide => "divide"
  | .binary .power => "power"
  | .unary .plus => "unary_plus"
  | .unary .minus => "unary_minus"
  | .unary .factorial => "factorial"
  | .unary (.call f) => f.symbol

def ofName? (name : String) : Option Op :=
  all.find? fun o => o.name = name

/-- The kind with its constant's name. -/
def kindText (o : Op) : String :=
  "<OpKind." ++ o.name.toUpper ++ ": '" ++ o.name ++ "'>"

end Op

/-! ## Wrong arities -/

/-- An operator that was taken for one of the other arity. -/
structure WrongArity where
  op : Op
  deriving DecidableEq

def WrongArity.message (e : WrongArity) : String := e.op.kindText

namespace Op

/-- The operator as a unary one. -/
def asUnary : Op → Except WrongArity UnaryOp
  | .unary u => .ok u
  | .binary b => .error ⟨.binary b⟩

/-- The operator as a binary one. -/
def asBinary : Op → Except WrongArity BinaryOp
  | .unary u => .error ⟨.unary u⟩
  | .binary b => .ok b

end Op

end Formula
