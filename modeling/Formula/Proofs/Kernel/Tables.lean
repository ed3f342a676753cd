import Formula.Kernel.Tables
import Formula.Proofs.Lookup
import Formula.Proofs.Token.Splitting

/-!
# The tables agree

What the tables say of an operator is what the functions on operators say: the registry has its
symbol, priority, associativity and arity (`lookup_operators`), and each table of kernels has just
the operators of its arity, each with its kernel. So a machine that finds its kernels in tables
never misses one, and it does what the arithmetic does (`apply_of_lists`).
-/

namespace Formula

/-! ## The registry -/

/-- **The entry of an operator.** -/
theorem lookup_operators (o : Op) :
    operators.lookup o = some ⟨o, o.symbol, o.priority, o.associativity, o.arity⟩ := by
  rcases o with (_ | _ | _ | f) | b
  · rfl
  · rfl
  · rfl
  · cases f <;> rfl
  · cases b <;> rfl

/-- The registry has each operator once. -/
theorem map_fst_operators : operators.map Prod.fst = Op.all := rfl

theorem lookup_functionWords (word : String) :
    functionWords.lookup word = (NamedFunction.ofWord? word).map fun f => .unary (.call f) := by
  cases h : NamedFunction.ofWord? word with
  | some f =>
    obtain rfl := NamedFunction.symbol_of_ofWord? h
    cases f <;> rfl
  | none =>
    refine lookup_eq_none_of_not_mem fun hmem => ?_
    have hkeys : ∀ key ∈ functionWords.map Prod.fst,
        key ∈ NamedFunction.all.map NamedFunction.symbol := by decide
    obtain ⟨f, -, hf⟩ := List.mem_map.mp (hkeys word hmem)
    exact NamedFunction.ofWord?_eq_none_iff.mp h f hf

/-- **A symbol stands for the binary operator of its character**, if it is one character. -/
theorem lookup_binarySymbols (c : Char) :
    binarySymbols.lookup (String.singleton c) = (BinaryOp.ofChar? c).map .binary := by
  cases h : BinaryOp.ofChar? c with
  | some b =>
    obtain rfl := BinaryOp.char_of_ofChar? h
    cases b <;> rfl
  | none =>
    refine lookup_eq_none_of_not_mem fun hmem => ?_
    have hkeys : ∀ key ∈ binarySymbols.map Prod.fst,
        key ∈ BinaryOp.all.map fun b => String.singleton b.char := by decide
    obtain ⟨b, hb, hsymbol⟩ := List.mem_map.mp (hkeys _ hmem)
    have hchar : b.char = c := by simpa using congrArg String.toList hsymbol
    exact List.find?_eq_none.mp h b hb (decide_eq_true hchar)

/-! ## Which operators have kernels -/

section

variable (K : Kernels)

/-- **Each table has the operators of its arity**, in the order of the registry. -/
theorem map_fst_kernels :
    K.unaryKernels.map Prod.fst = Op.all.filter (fun o => o.arity = 1) ∧
      K.argumentUnaryKernels.map Prod.fst = Op.all.filter (fun o => o.arity = 1) ∧
      K.binaryKernels.map Prod.fst = Op.all.filter (fun o => o.arity = 2) ∧
      K.argumentBinaryKernels.map Prod.fst = Op.all.filter (fun o => o.arity = 2) :=
  ⟨rfl, rfl, rfl, rfl⟩

/-- **A unary kernel is found for unary operators**, and it is the one of the operator. -/
theorem Kernels.unaryKernel_eq (o : Op) :
    K.unaryKernel o = o.asUnary.map fun u => ⟨K.unary u, K.unaryOnElement u⟩ := by
  rcases o with (_ | _ | _ | f) | b
  · rfl
  · rfl
  · rfl
  · cases f <;> rfl
  · cases b <;> rfl

/-- **A binary kernel is found for binary operators**, and it is the one of the operator. -/
theorem Kernels.binaryKernel_eq (o : Op) :
    K.binaryKernel o = o.asBinary.map fun b => ⟨K.binary b, K.binaryVarying b⟩ := by
  rcases o with (_ | _ | _ | f) | b
  · rfl
  · rfl
  · rfl
  · cases f <;> rfl
  · cases b <;> rfl

/-- The two unary tables differ in the factorial only. -/
theorem Kernels.lookup_argumentUnaryKernels {o : Op} (h : o ≠ .unary .factorial) :
    K.argumentUnaryKernels.lookup o = (K.unaryKernels.lookup o).map UnaryKernel.element := by
  rcases o with (_ | _ | _ | f) | b
  · rfl
  · rfl
  · exact absurd rfl h
  · cases f <;> rfl
  · cases b <;> rfl

/-- The two binary tables do not differ. -/
theorem Kernels.argumentBinaryKernels_eq : K.argumentBinaryKernels = K.binaryKernels := rfl

end

/-! ## Machines with tables -/

/-- The tables have the kernels of an arithmetic. -/
structure KernelTables.Lists {α : Type} (T : KernelTables α) (A : Arithmetic α) : Prop where
  unary (u : UnaryOp) : T.unaryKernel? (.unary u) = some (A.unary u)
  binary (b : BinaryOp) : T.binary.lookup (.binary b) = some (A.binary b)

namespace Kernels

variable (K : Kernels)

theorem lists_singleTables : K.singleTables.Lists K.scalar where
  unary u := by
    rcases u with _ | _ | _ | f
    · rfl
    · rfl
    · rfl
    · cases f <;> rfl
  binary b := by cases b <;> rfl

theorem lists_columnTables : K.columnTables.Lists K.batch where
  unary u := by
    rcases u with _ | _ | _ | f
    · rfl
    · rfl
    · rfl
    · cases f <;> rfl
  binary b := by cases b <;> rfl

theorem lists_argumentTables : K.argumentTables.Lists K.onArguments where
  unary u := by
    rcases u with _ | _ | _ | f
    · rfl
    · rfl
    · rfl
    · cases f <;> rfl
  binary b := by cases b <;> rfl

end Kernels

/-- **A machine with tables does what its arithmetic does**, and no kernel is missing. -/
theorem KernelTables.apply_of_lists {α : Type} {T : KernelTables α} {A : Arithmetic α}
    (h : T.Lists A) (o : Op) (stack : List α) :
    T.apply o stack = (A.apply o stack).mapError fun e => (.run e.1, e.2) := by
  rw [KernelTables.apply, lookup_operators]
  cases o with
  | unary u =>
    show T.applyUnary (.unary u) stack = _
    unfold applyUnary
    rw [h.unary]
    cases stack <;> rfl
  | binary b =>
    show T.applyBinary (.binary b) stack = _
    rcases stack with _ | ⟨y, _ | ⟨x, stack⟩⟩
    · rfl
    · rfl
    · simp only [applyBinary, h.binary, Arithmetic.apply]
      cases A.binary b x y <;> rfl

end Formula
