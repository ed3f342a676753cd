import Formula.Program.Run
import Formula.Table.Basic
import Formula.Token.Basic

/-!
# Trees of formulas

A tree says what a formula means: numbers and names at the leaves, operators at the nodes. Brackets
have done their work when the tree is there and leave no node. A sign is a node, a positive one too.

A tree has one listing in postorder, operators behind their operands, and it can be put together
again from that listing (`foldl_grow_postorder`), so two trees with one listing are one tree. The
program of a tree is the same listing without the positive signs.
-/

namespace Formula

inductive Tree where
  | number (value : Double)
  | name (word : String)
  | unary (op : UnaryOp) (operand : Tree)
  | binary (op : BinaryOp) (left right : Tree)
  deriving DecidableEq

namespace Tree

/-! ## Postorder -/

def postorder : Tree → List Token
  | .number v => [.number v]
  | .name word => [.name word]
  | .unary u t => t.postorder ++ [.op (.unary u)]
  | .binary b l r => l.postorder ++ r.postorder ++ [.op (.binary b)]

/-- Puts one more token of a listing on a row of trees, the latest first. -/
def grow : List Tree → Token → List Tree
  | trees, .number v => .number v :: trees
  | trees, .name word => .name word :: trees
  | t :: trees, .op (.unary u) => .unary u t :: trees
  | r :: l :: trees, .op (.binary b) => .binary b l r :: trees
  | trees, _ => trees

/-- **A tree grows back from its listing.** -/
theorem foldl_grow_postorder (t : Tree) (trees : List Tree) :
    t.postorder.foldl grow trees = t :: trees := by
  induction t generalizing trees with
  | number v => rfl
  | name word => rfl
  | unary u t ih => rw [postorder, List.foldl_append, ih]; rfl
  | binary b l r ihl ihr => rw [postorder, List.foldl_append, List.foldl_append, ihl, ihr]; rfl

theorem postorder_injective {t u : Tree} (h : t.postorder = u.postorder) : t = u := by
  have key : [t] = [u] := by
    rw [← foldl_grow_postorder t [], ← foldl_grow_postorder u [], h]
  exact List.singleton_inj.mp key

/-! ## Programs -/

/-- The program of a tree, where `slot` gives each name its slot. A positive sign leaves no
instruction. -/
def program (slot : String → Nat) : Tree → Program
  | .number v => [.push v]
  | .name word => [.load (slot word) word]
  | .unary .plus t => t.program slot
  | .unary u t => t.program slot ++ [.apply (.unary u)]
  | .binary b l r => l.program slot ++ r.program slot ++ [.apply (.binary b)]

theorem program_unary {u : UnaryOp} (hu : u ≠ .plus) (slot : String → Nat) (t : Tree) :
    (unary u t).program slot = t.program slot ++ [.apply (.unary u)] := by
  cases u with
  | plus => exact absurd rfl hu
  | minus | factorial | call f => rfl

/-! ## Names -/

/-- The names at the leaves from left to right, with repetitions. -/
def names : Tree → List String
  | .number _ => []
  | .name word => [word]
  | .unary _ t => t.names
  | .binary _ l r => l.names ++ r.names

/-! ## Values -/

/-- The value of a tree: numbers stand for themselves, names for their values, and operators are
applied to the values of their operands. -/
def eval (K : Kernels) (value : String → Double) : Tree → Double
  | .number v => v
  | .name word => value word
  | .unary .plus t => t.eval K value
  | .unary .minus t => (t.eval K value).neg
  | .unary .factorial t => (t.eval K value).factorial
  | .unary (.call f) t => K.call f (t.eval K value)
  | .binary b l r => K.binary b (l.eval K value) (r.eval K value)

end Tree

end Formula
