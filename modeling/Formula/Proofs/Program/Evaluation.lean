import Formula.Proofs.Program.Translation
import Formula.Tensor.Broadcast

/-!
# Running a formula

A tree has a value in every arithmetic: numbers are its constants, names have the values that they
are given, and operators are applied to the values of their operands. Running the program of a tree
yields this value, on any stack (`result_run_program`, `run_program_of_ok`). So the result of a
compiled formula can be read off its tree, without a machine.

A value may be an error. The machine and the tree meet the same one first, because the machine
takes the operands from left to right as well.
-/

namespace Formula

/-- The value of a slot for the machine. -/
def loaded {α : Type} (slots : Nat → Option α) (slot : Nat) : Except RunError α :=
  match slots slot with
  | some v => .ok v
  | none => .error (.noSlot slot)

section

variable {α β : Type} {x : Except (RunError × β) α}

theorem eq_ok_of_mapError {v : α} (h : x.mapError Prod.fst = .ok v) : x = .ok v := by
  cases x <;> cases h
  rfl

theorem exists_of_mapError_eq_error {e : RunError} (h : x.mapError Prod.fst = .error e) :
    ∃ left, x = .error (e, left) := by
  cases x <;> cases h
  exact ⟨_, rfl⟩

end

namespace Tree

variable {α : Type}

/-- The value of a tree in an arithmetic. A positive sign does nothing. -/
def evalIn (A : Arithmetic α) (value : String → Except RunError α) : Tree → Except RunError α
  | .number v => .ok (A.constant v)
  | .name word => value word
  | .unary .plus t => t.evalIn A value
  | .unary u t => (t.evalIn A value).map (A.unary u)
  | .binary b l r => do A.binary b (← l.evalIn A value) (← r.evalIn A value)

theorem evalIn_unary (A : Arithmetic α) (value : String → Except RunError α) {u : UnaryOp}
    (hu : u ≠ .plus) (t : Tree) :
    (unary u t).evalIn A value = (t.evalIn A value).map (A.unary u) := by
  cases u with
  | plus => exact absurd rfl hu
  | minus | factorial | call f => rfl

theorem eval_unary (K : Kernels) (value : String → Double) (u : UnaryOp) (t : Tree) :
    (unary u t).eval K value = K.unary u (t.eval K value) := by
  cases u <;> rfl

/-- **On doubles, a tree whose names have values has its value.** -/
theorem evalIn_scalar (K : Kernels) {value : String → Except RunError Double}
    {ρ : String → Double} (t : Tree) (hvalue : ∀ word ∈ t.names, value word = .ok (ρ word)) :
    t.evalIn K.scalar value = .ok (t.eval K ρ) := by
  induction t with
  | number v => rfl
  | name word => exact hvalue word List.mem_cons_self
  | unary u t ih =>
    cases u with
    | plus => exact ih hvalue
    | minus | factorial | call f =>
      rw [evalIn, ih hvalue]
      · rfl
      · simp
  | binary b l r ihl ihr =>
    rw [evalIn, ihl fun word hw => hvalue word (List.mem_append_left _ hw),
      ihr fun word hw => hvalue word (List.mem_append_right _ hw)]
    rfl

/-- Every error of a tree is one of a name or one of an operator. -/
theorem evalIn_error {A : Arithmetic α} {value : String → Except RunError α}
    {IsError : RunError → Prop} (hbinary : ∀ b x y e, A.binary b x y = .error e → IsError e)
    (t : Tree) (hvalue : ∀ word ∈ t.names, ∀ e, value word = .error e → IsError e) {e : RunError}
    (h : t.evalIn A value = .error e) : IsError e := by
  induction t with
  | number v => cases h
  | name word => exact hvalue word List.mem_cons_self e h
  | unary u t ih =>
    refine ih hvalue ?_
    cases u with
    | plus => exact h
    | minus | factorial | call f =>
      rw [evalIn] at h
      · cases ht : t.evalIn A value with
        | ok x => rw [ht] at h; cases h
        | error e' => rw [ht] at h; exact h
      · simp
  | binary b l r ihl ihr =>
    rw [evalIn] at h
    cases hl : l.evalIn A value with
    | error e' =>
      rw [hl] at h
      exact ihl (fun word hw => hvalue word (List.mem_append_left _ hw)) (hl.trans h)
    | ok x =>
      cases hr : r.evalIn A value with
      | error e' =>
        rw [hl, hr] at h
        exact ihr (fun word hw => hvalue word (List.mem_append_right _ hw)) (hr.trans h)
      | ok y =>
        rw [hl, hr] at h
        exact hbinary b x y e h

end Tree

/-! ## Programs of trees -/

namespace Arithmetic

variable {α : Type} (A : Arithmetic α) (slots : Nat → Option α) (slot : String → Nat)

/-- An operator on two values that are on the stack. -/
theorem exec_binary (b : BinaryOp) (x y : α) (stack : List α) :
    (A.exec slots [.apply (.binary b)] (y :: x :: stack)).mapError Prod.fst
      = (A.binary b x y).map (· :: stack) := by
  simp only [exec, step, apply]
  cases A.binary b x y <;> rfl

/-- **The program of a tree puts the value of the tree on the stack, or fails as the tree does.** -/
theorem exec_program (t : Tree) (stack : List α) :
    (A.exec slots (t.program slot) stack).mapError Prod.fst
      = (t.evalIn A fun word => loaded slots (slot word)).map (· :: stack) := by
  induction t generalizing stack with
  | number v => rfl
  | name word =>
    simp only [Tree.program, exec, step, Tree.evalIn, loaded]
    cases slots (slot word) <;> rfl
  | unary u t ih =>
    have h := ih stack
    cases u with
    | plus => exact h
    | minus | factorial | call f =>
      simp only [Tree.program, Tree.evalIn, exec_append]
      cases hv : t.evalIn A fun word => loaded slots (slot word) with
      | error e =>
        obtain ⟨left, ht⟩ := exists_of_mapError_eq_error (h.trans (by rw [hv]; rfl))
        rw [ht]
        rfl
      | ok x =>
        rw [eq_ok_of_mapError (h.trans (by rw [hv]; rfl))]
        rfl
  | binary b l r ihl ihr =>
    simp only [Tree.program, Tree.evalIn, exec_append]
    cases hx : l.evalIn A fun word => loaded slots (slot word) with
    | error e =>
      -- nothing of what is right of an error is run
      obtain ⟨left, hl⟩ := exists_of_mapError_eq_error ((ihl stack).trans (by rw [hx]; rfl))
      rw [hl]
      rfl
    | ok x =>
      rw [eq_ok_of_mapError ((ihl stack).trans (by rw [hx]; rfl))]
      cases hy : r.evalIn A fun word => loaded slots (slot word) with
      | error e =>
        obtain ⟨left, hr⟩ :=
          exists_of_mapError_eq_error ((ihr (x :: stack)).trans (by rw [hy]; rfl))
        show (A.exec slots (r.program slot) (x :: stack) >>= _).mapError _ = _
        rw [hr]
        rfl
      | ok y =>
        show (A.exec slots (r.program slot) (x :: stack) >>= _).mapError _ = _
        rw [eq_ok_of_mapError ((ihr (x :: stack)).trans (by rw [hy]; rfl))]
        exact A.exec_binary slots b x y stack

/-- The result of a run is the value of the tree. -/
theorem result_run_program (t : Tree) (stack : List α) :
    (A.run slots (t.program slot) stack).result
      = t.evalIn A fun word => loaded slots (slot word) := by
  have h := A.exec_program slots slot t stack
  unfold run
  cases hv : t.evalIn A fun word => loaded slots (slot word) with
  | error e =>
    obtain ⟨left, ht⟩ := exists_of_mapError_eq_error (h.trans (by rw [hv]; rfl))
    rw [ht]
  | ok x => rw [eq_ok_of_mapError (h.trans (by rw [hv]; rfl))]

/-- A run with a value leaves the stack as it was. -/
theorem run_program_of_ok {t : Tree} {v : α}
    (h : (t.evalIn A fun word => loaded slots (slot word)) = .ok v) (stack : List α) :
    A.run slots (t.program slot) stack = ⟨.ok v, stack⟩ := by
  have ht := A.exec_program slots slot t stack
  rw [run, eq_ok_of_mapError (ht.trans (by rw [h]; rfl))]

end Arithmetic

/-! ## Compiled formulas -/

/-- A name of a table has a value where the values are as many as the names. -/
theorem loaded_slotsOf {table : Table} {values : List Double}
    (hvalues : table.size ≤ values.length) {word : String} (hword : word ∈ table.names) :
    loaded (slotsOf values) (table.names.idxOf word)
      = .ok (values.getD (table.names.idxOf word) .nan) := by
  have hslot := Nat.lt_of_lt_of_le (Table.idxOf_lt_size hword) hvalues
  rw [loaded, slotsOf, List.getD_eq_getElem?_getD, List.getElem?_eq_getElem hslot]
  rfl

/-- The program of a tree yields the value of the tree. -/
theorem run_program_slotsOf (K : Kernels) (t : Tree) {table : Table}
    (hnames : ∀ word ∈ t.names, word ∈ table.names) {values : List Double}
    (hvalues : table.size ≤ values.length) (stack : List Double) :
    K.scalar.run (slotsOf values) (t.program table.names.idxOf) stack
      = ⟨.ok (t.eval K fun word => values.getD (table.names.idxOf word) .nan), stack⟩ := by
  have hvalue : ∀ word ∈ t.names, loaded (slotsOf values) (table.names.idxOf word)
      = .ok (values.getD (table.names.idxOf word) .nan) := by
    intro word hw
    exact loaded_slotsOf hvalues (hnames word hw)
  exact K.scalar.run_program_of_ok _ _ (t.evalIn_scalar K hvalue) stack

/--
**Compiling and running a formula is evaluating its tree.**

The values are given slot by slot, for each slot of the table that the compilation leaves. Every
name of the tree has a slot there. The run takes what it needs and leaves the stack as it was.
-/
theorem run_compile_unfolded (K : Kernels) (text : String) (table : Table) (values : List Double)
    {p : Program} (h : (compile ⟨K, false⟩ text table).program = .ok p)
    (hvalues : (compile ⟨K, false⟩ text table).table.size ≤ values.length) :
    ∃ t, IsReading text t ∧ (∀ u, IsReading text u → u = t) ∧
      (∀ word ∈ t.names, word ∈ (compile ⟨K, false⟩ text table).table.names) ∧
      ∀ stack, K.scalar.run (slotsOf values) p stack
        = ⟨.ok (t.eval K fun word =>
            values.getD ((compile ⟨K, false⟩ text table).table.names.idxOf word) .nan), stack⟩ := by
  obtain ⟨t, ht⟩ := exists_isReading_of_compile table h
  have htable := table_compile_of_isReading table ⟨K, false⟩ ht
  rw [program_compile_unfolded table K ht] at h
  rw [htable] at hvalues ⊢
  have hnames : ∀ word ∈ t.names, word ∈ (table.registerAll t.names).names :=
    fun word hw => table.mem_names_registerAll hw
  obtain rfl := Except.ok.inj h
  exact ⟨t, ht, fun u hu => hu.unique ht, hnames, run_program_slotsOf K t hnames hvalues⟩

/-- Each of the names has its own value. -/
theorem run_compile_unfolded_difference :
    (compile ⟨.standard, false⟩ "x - y*x" .empty).program
        = .ok [.load 0 "x", .load 1 "y", .load 0 "x", .apply (.binary .multiply),
          .apply (.binary .subtract)] ∧
      ∃ t, IsReading "x - y*x" t ∧
        Kernels.standard.scalar.run (slotsOf [.ofNat 7, .ofNat 3]) [.load 0 "x", .load 1 "y",
            .load 0 "x", .apply (.binary .multiply), .apply (.binary .subtract)] []
          = ⟨.ok (t.eval .standard fun word => [Double.ofNat 7, .ofNat 3].getD
              ((compile ⟨.standard, false⟩ "x - y*x" .empty).table.names.idxOf word) .nan),
            []⟩ := by
  have h : (compile ⟨.standard, false⟩ "x - y*x" .empty).program
      = .ok [.load 0 "x", .load 1 "y", .load 0 "x", .apply (.binary .multiply),
        .apply (.binary .subtract)] := by
    decide +kernel
  have hvalues : (compile ⟨.standard, false⟩ "x - y*x" .empty).table.size
      ≤ [Double.ofNat 7, .ofNat 3].length := by
    decide +kernel
  obtain ⟨t, ht, -, -, hrun⟩ :=
    run_compile_unfolded .standard _ .empty [.ofNat 7, .ofNat 3] h hvalues
  exact ⟨h, t, ht, hrun []⟩

end Formula
