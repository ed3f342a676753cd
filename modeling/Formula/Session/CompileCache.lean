import Formula.Cache
import Formula.Expression.Basic

/-!
# The cache of compiled formulas

A formula is kept under its text and whether it is folded. Only formulas that compile are kept; a
text that does not compile is compiled again each time. Every expression gets variables of its own,
so nothing that happens to one shows in the cache.
-/

namespace Formula

/-- Compiled formulas, and how often one was found or not. -/
structure CompileCache where
  templates : Cache (String × Bool) Template
  hits : Nat
  misses : Nat

/-- The figures of a cache. -/
structure CacheFigures where
  hits : Nat
  misses : Nat
  size : Nat
  capacity : Nat
  hitRate : Double

namespace CompileCache

def empty (capacity : Nat) : CompileCache := ⟨.empty capacity, 0, 0⟩

/-- An expression for a text. -/
def construct (c : CompileCache) (K : Kernels) (text : String) (fold : Bool) :
    CompileCache × Except CompileError Expression :=
  match c.templates.find? (text, fold) with
  | some t =>
    (⟨c.templates.store (text, fold) t, c.hits + 1, c.misses⟩, .ok (.ofTemplate text t))
  | none =>
    match Template.ofText K fold text with
    | .ok t => (⟨c.templates.store (text, fold) t, c.hits, c.misses + 1⟩, .ok (.ofTemplate text t))
    | .error e => ({ c with misses := c.misses + 1 }, .error e)

/-- The share of constructions that found their formula; 0 if there were none. -/
def hitRate (c : CompileCache) : Double :=
  if c.hits + c.misses = 0 then .zero
  else .num false (.ofRatio (c.hits * Magnitude.unitsPerOne) (c.hits + c.misses))

def figures (c : CompileCache) : CacheFigures :=
  ⟨c.hits, c.misses, c.templates.size, c.templates.capacity, c.hitRate⟩

/-- Without formulas, and counted anew. -/
def reset (c : CompileCache) : CompileCache := .empty c.templates.capacity

end CompileCache

end Formula
