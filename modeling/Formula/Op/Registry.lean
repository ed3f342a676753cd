import Formula.Op

/-!
# The registry of operators

The registry has an entry for each operator, which says how it is written, how tightly it binds, how
it groups, and how many operands it takes. Words are looked up among the functions, and symbols
behind an operand among the binary operators.
-/

namespace Formula

/-- The entry of an operator. -/
structure OperatorInfo where
  kind : Op
  symbol : String
  priority : Nat
  associativity : Associativity
  arity : Nat
  deriving DecidableEq

namespace OperatorInfo

def isBinary (i : OperatorInfo) : Bool := i.arity = 2

def ofBinary (b : BinaryOp) (symbol : String) (priority : Nat) (associativity : Associativity) :
    OperatorInfo := ⟨.binary b, symbol, priority, associativity, 2⟩

/-- Signs, functions and the factorial differ in their symbols only. -/
def ofUnary (u : UnaryOp) (symbol : String) : OperatorInfo := ⟨.unary u, symbol, 4, .right, 1⟩

end OperatorInfo

def operators : List (Op × OperatorInfo) :=
  [(.binary .add, .ofBinary .add "+" 1 .left),
   (.binary .subtract, .ofBinary .subtract "-" 1 .left),
   (.binary .multiply, .ofBinary .multiply "*" 2 .left),
   (.binary .divide, .ofBinary .divide "/" 2 .left),
   (.binary .power, .ofBinary .power "^" 3 .right),
   (.unary .plus, .ofUnary .plus "+"),
   (.unary .minus, .ofUnary .minus "-"),
   (.unary .factorial, .ofUnary .factorial "!"),
   (.unary (.call .sqrt), .ofUnary (.call .sqrt) "sqrt"),
   (.unary (.call .sin), .ofUnary (.call .sin) "sin"),
   (.unary (.call .cos), .ofUnary (.call .cos) "cos"),
   (.unary (.call .tan), .ofUnary (.call .tan) "tan"),
   (.unary (.call .asin), .ofUnary (.call .asin) "asin"),
   (.unary (.call .acos), .ofUnary (.call .acos) "acos"),
   (.unary (.call .atan), .ofUnary (.call .atan) "atan"),
   (.unary (.call .log), .ofUnary (.call .log) "log")]

def functionWords : List (String × Op) :=
  [("sqrt", .unary (.call .sqrt)), ("sin", .unary (.call .sin)), ("cos", .unary (.call .cos)),
   ("tan", .unary (.call .tan)), ("log", .unary (.call .log)), ("asin", .unary (.call .asin)),
   ("acos", .unary (.call .acos)), ("atan", .unary (.call .atan))]

def binarySymbols : List (String × Op) :=
  [("+", .binary .add), ("-", .binary .subtract), ("*", .binary .multiply), ("/", .binary .divide),
   ("^", .binary .power)]

end Formula
