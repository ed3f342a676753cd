import Formula.Proofs.Kernel.Factorial
import Formula.Proofs.Program.Evaluation

/-!
# Folding cannot be observed

Compilations of one text with and without folding end alike: with the same error or with programs
that no run can tell apart, and with the same table.

For a machine that computes with constants as the kernels do, a folded tree runs as the tree itself
from any stack on (`exec_tree`). Numbers and columns are such machines: a constant in a column
computation has no extents, so it neither changes a shape nor becomes an operand that varies.
-/

namespace Formula

/-! ## Loads -/

/-- The slot and the name that an instruction loads. -/
def Instr.load? : Instr → Option (Nat × String)
  | .load slot name => some (slot, name)
  | _ => none

/-- What a program loads, in order. -/
def Program.loads (p : Program) : List (Nat × String) := p.filterMap Instr.load?

theorem Tree.loads_program (t : Tree) (slot : String → Nat) :
    Program.loads (t.program slot) = t.names.map fun word => (slot word, word) := by
  induction t with
  | number v => rfl
  | name word => rfl
  | unary u t ih =>
    by_cases hu : u = .plus
    · rw [hu]
      exact ih
    · rw [Program.loads, program_unary hu, List.filterMap_append]
      exact (List.append_nil _).trans ih
  | binary b l r ihl ihr =>
    rw [Program.loads, program, List.filterMap_append, List.filterMap_append, names,
      List.map_append, ← ihl, ← ihr]
    exact List.append_nil _

namespace Folding

variable (F : Folding)

theorem names_unary (u : UnaryOp) (t : Tree) : (F.unary u t).names = t.names := by
  rcases F.unary_cases u t with ⟨-, h⟩ | ⟨-, h | ⟨-, x, rfl, h⟩⟩
  · rw [h]
  · rw [h]
    rfl
  · rw [h]
    rfl

theorem names_binary (b : BinaryOp) (l r : Tree) :
    (F.binary b l r).names = l.names ++ r.names := by
  rcases F.binary_cases b l r with h | ⟨-, x, y, rfl, rfl, h⟩
  · rw [h]
    rfl
  · rw [h]
    rfl

/-- **Folding leaves all names in place.** -/
theorem names_tree (t : Tree) : (F.tree t).names = t.names := by
  induction t with
  | number v => rfl
  | name word => rfl
  | unary u t ih => rw [tree, names_unary, ih]; rfl
  | binary b l r ihl ihr => rw [tree, names_binary, ihl, ihr]; rfl

end Folding

/-! ## Running folded trees -/

/-- The arithmetic computes with constants as the kernels do. -/
structure Arithmetic.Extends {α : Type} (A : Arithmetic α) (K : Kernels) : Prop where
  unary (u : UnaryOp) (x : Double) : A.unary u (A.constant x) = A.constant (K.unary u x)
  binary (b : BinaryOp) (x y : Double) :
    A.binary b (A.constant x) (A.constant y) = .ok (A.constant (K.binary b x y))

namespace Folding

variable (F : Folding) {α : Type} {A : Arithmetic α}

/-- Folding at a unary node. -/
theorem exec_unary (hA : A.Extends F.kernels) (slots : Nat → Option α) (slot : String → Nat)
    (u : UnaryOp) (t : Tree) :
    A.exec slots ((F.unary u t).program slot) = A.exec slots ((Tree.unary u t).program slot) := by
  rcases F.unary_cases u t with ⟨rfl, h⟩ | ⟨hu, h | ⟨-, x, rfl, h⟩⟩
  · rw [h]
    rfl
  · rw [h]
  · rw [h, Tree.program_unary hu]
    funext stack
    show Except.ok (A.constant (F.kernels.unary u x) :: stack) = Except.ok (_ :: stack)
    rw [hA.unary]

/-- Folding at a binary node. -/
theorem exec_binary (hA : A.Extends F.kernels) (slots : Nat → Option α) (slot : String → Nat)
    (b : BinaryOp) (l r : Tree) :
    A.exec slots ((F.binary b l r).program slot)
      = A.exec slots ((Tree.binary b l r).program slot) := by
  rcases F.binary_cases b l r with h | ⟨-, x, y, rfl, rfl, h⟩
  · rw [h]
  · rw [h]
    funext stack
    simp [Tree.program, Arithmetic.exec, Arithmetic.step, Arithmetic.apply, hA.binary]

/-- **A folded tree runs as the tree does**, from any stack on and also when it fails. -/
theorem exec_tree (hA : A.Extends F.kernels) (slots : Nat → Option α) (slot : String → Nat)
    (t : Tree) (stack : List α) :
    A.exec slots ((F.tree t).program slot) stack = A.exec slots (t.program slot) stack := by
  induction t generalizing stack with
  | number v => rfl
  | name word => rfl
  | unary u t ih =>
    rw [tree, F.exec_unary hA]
    by_cases hu : u = .plus
    · rw [hu]
      exact ih stack
    · rw [Tree.program_unary hu, Tree.program_unary hu, A.exec_append, A.exec_append, ih]
  | binary b l r ihl ihr =>
    rw [tree, F.exec_binary hA, Tree.program, Tree.program, A.exec_append, A.exec_append,
      A.exec_append, A.exec_append, ihl, funext ihr]

theorem run_tree (hA : A.Extends F.kernels) (slots : Nat → Option α) (slot : String → Nat)
    (t : Tree) (stack : List α) :
    A.run slots ((F.tree t).program slot) stack = A.run slots (t.program slot) stack := by
  rw [Arithmetic.run, Arithmetic.run, F.exec_tree hA]

end Folding

/-! ## Numbers and columns -/

namespace Kernels

variable (K : Kernels)

theorem extends_scalar : K.scalar.Extends K where
  unary _ _ := rfl
  binary _ _ _ := rfl

theorem unaryOnElement_eq (u : UnaryOp) : K.unaryOnElement u = K.unary u := by
  cases u with
  | factorial => exact funext Double.factorialOfElement_eq
  | plus | minus | call f => rfl

theorem extends_batch : K.batch.Extends K where
  unary u x := by
    show Tensor.map (K.unaryOnElement u) (Tensor.scalar x) = Tensor.scalar (K.unary u x)
    rw [unaryOnElement_eq]
    simp [Tensor.map, Tensor.scalar]
  binary _ _ _ := rfl

end Kernels

/-! ## Compiled formulas -/

/-- Two programs that load the same and give the same results, as numbers and over columns. -/
structure Program.Alike (K : Kernels) (p q : Program) : Prop where
  loads : p.loads = q.loads
  run (values stack : List Double) :
    K.scalar.run (slotsOf values) p stack = K.scalar.run (slotsOf values) q stack
  evalBatch (values : List Double) (columns : List (Nat × Tensor Double)) :
    p.evalBatch K values columns = q.evalBatch K values columns

/-- A program that has a result for each assignment of values to `size` slots: a number, or an array
or two shapes that do not fit together. -/
structure Program.Defined (K : Kernels) (size : Nat) (p : Program) : Prop where
  run {values : List Double} (h : size ≤ values.length) (stack : List Double) :
    ∃ v, K.scalar.run (slotsOf values) p stack = ⟨.ok v, stack⟩
  evalBatch {values : List Double} (h : size ≤ values.length)
    (columns : List (Nat × Tensor Double)) :
    (∃ a, p.evalBatch K values columns = .ok a) ∨
      ∃ s t, p.evalBatch K values columns = .error (.shapes s t)

theorem Folding.alike_program_tree (F : Folding) (slot : String → Nat) (t : Tree) :
    Program.Alike F.kernels ((F.tree t).program slot) (t.program slot) where
  loads := by rw [Tree.loads_program, Tree.loads_program, names_tree]
  run values stack := F.run_tree F.kernels.extends_scalar (slotsOf values) slot t stack
  evalBatch values columns :=
    congrArg Outcome.result
      (F.run_tree F.kernels.extends_batch (slotsWith columns values) slot t [])

/-- An operator on tensors fails on shapes only. -/
theorem exists_of_onTensors_eq_error (K : Kernels) (b : BinaryOp) (x y : Tensor Double)
    (e : RunError) (h : K.onTensors b x y = .error e) : ∃ s t, e = .shapes s t := by
  unfold Kernels.onTensors Tensor.zipWith at h
  split at h
  · cases h
  · cases h
    exact ⟨_, _, rfl⟩

/-- A name of a table has a tensor where the values are as many as the names. -/
theorem exists_loaded_slotsWith {table : Table} {values : List Double}
    (hvalues : table.size ≤ values.length) (columns : List (Nat × Tensor Double)) {word : String}
    (hword : word ∈ table.names) :
    ∃ a, loaded (slotsWith columns values) (table.names.idxOf word) = .ok a := by
  have hslot := Nat.lt_of_lt_of_le (Table.idxOf_lt_size hword) hvalues
  unfold loaded slotsWith
  rw [List.getElem?_eq_getElem hslot]
  cases lastGiven columns (table.names.idxOf word) with
  | some a => exact ⟨a, rfl⟩
  | none => exact ⟨_, rfl⟩

theorem Tree.defined_program (K : Kernels) (t : Tree) {table : Table}
    (hnames : ∀ word ∈ t.names, word ∈ table.names) :
    Program.Defined K table.size (t.program table.names.idxOf) where
  run hvalues stack := ⟨_, run_program_slotsOf K t hnames hvalues stack⟩
  evalBatch {values} hvalues columns := by
    rw [Program.evalBatch, Arithmetic.eval, Arithmetic.result_run_program]
    cases h : t.evalIn K.batch fun word =>
        loaded (slotsWith columns values) (table.names.idxOf word) with
    | ok a => exact .inl ⟨a, rfl⟩
    | error e =>
      have hshapes : ∃ s u, e = .shapes s u := by
        refine t.evalIn_error (exists_of_onTensors_eq_error K) ?_ h
        intro word hw e he
        obtain ⟨a, ha⟩ := exists_loaded_slotsWith hvalues columns (hnames word hw)
        rw [ha] at he
        cases he
      obtain ⟨s, u, rfl⟩ := hshapes
      exact .inr ⟨s, u, rfl⟩

/--
**Folding cannot be observed.**

With and without folding, a compilation leaves the same table. Either both fail with the same error,
or they give programs that load the same and have the same results, and these results are values
as soon as all slots of the table have values.
-/
theorem compile_folded (K : Kernels) (text : String) (table : Table) :
    (compile ⟨K, true⟩ text table).table = (compile ⟨K, false⟩ text table).table ∧
      ((∃ e, (compile ⟨K, true⟩ text table).program = .error e ∧
          (compile ⟨K, false⟩ text table).program = .error e) ∨
        ∃ p q, (compile ⟨K, true⟩ text table).program = .ok p ∧
          (compile ⟨K, false⟩ text table).program = .ok q ∧
          Program.Alike K p q ∧
          Program.Defined K (compile ⟨K, false⟩ text table).table.size q) := by
  -- the order of the text decides how both compilations end
  cases hresult : (Ordered.ofText text).result with
  | error e =>
    refine ⟨?_, .inl ⟨e, ?_, ?_⟩⟩ <;> simp only [compile_eq, hresult]
    · rw [Folding.build, Folding.build, Folding.table_foldl_put, Folding.table_foldl_put]
    · rfl
    · rfl
  | ok ts =>
    obtain ⟨t, ht, -⟩ := Ordered.result_eq_ok_iff.mp hresult
    have htable := fun F => table_compile_of_isReading table F ht
    rw [htable, htable]
    refine ⟨rfl, .inr ⟨_, _, program_compile_of_isReading table ⟨K, true⟩ ht,
      program_compile_unfolded table K ht, Folding.alike_program_tree ⟨K, true⟩ _ t,
      t.defined_program K fun word hw => table.mem_names_registerAll hw⟩⟩

end Formula
