import Formula.Proofs.Program.Names

/-!
# Running a formula again and again

A compiled formula takes from the stack what it has put there and nothing else. So a run always has
a value, whatever it begins on, and leaves what it began on; and any number of runs on one stack
have the same value (`run_compile`).
-/

namespace Formula

/-- An operator has a kernel of its own arity. -/
theorem Op.exists_kernel (o : Op) :
    if o.isBinary then ∃ b, o.asBinary = .ok b else ∃ u, o.asUnary = .ok u := by
  cases o with
  | unary u => exact ⟨u, rfl⟩
  | binary b => exact ⟨b, rfl⟩

/-- Runs that leave the stack as it was are all alike. -/
theorem Arithmetic.runs_eq_replicate {α : Type} {A : Arithmetic α} {slots : Nat → Option α}
    {p : Program} {r : Except RunError α} {stack : List α} (h : A.run slots p stack = ⟨r, stack⟩)
    (n : Nat) : A.runs slots p n stack = (List.replicate n r, stack) := by
  induction n with
  | zero => rfl
  | succ n ih => simp only [runs, h, ih, List.replicate_succ]

/--
**A compiled formula always has a value, and a run leaves no trace.**

It is enough that the slots of the table have values. What was on the stack before has no influence
on the value and is left as it was, so the runs may be repeated.
-/
theorem run_compile (F : Folding) (K : Kernels) (text : String) (table : Table)
    (values : List Double) {p : Program} (h : (compile F text table).program = .ok p)
    (hvalues : (compile F text table).table.size ≤ values.length) :
    (∀ o, .apply o ∈ p →
      if o.isBinary then ∃ b, o.asBinary = .ok b else ∃ u, o.asUnary = .ok u) ∧
    ∃ v, ∀ stack, K.scalar.run (slotsOf values) p stack = ⟨.ok v, stack⟩ ∧
      ∀ n, K.scalar.runs (slotsOf values) p n stack = (List.replicate n (.ok v), stack) := by
  refine ⟨fun o _ => o.exists_kernel, ?_⟩
  obtain ⟨t, rfl, hnames⟩ := over_of_compile h
  have hrun := run_program_slotsOf K t hnames hvalues
  refine ⟨_, fun stack => ⟨hrun stack, ?_⟩⟩
  intro n
  exact Arithmetic.runs_eq_replicate (hrun stack) n

/-- Three runs of a folded formula on a stack that an earlier run has left. -/
theorem run_compile_folded_signs :
    (compile ⟨.standard, true⟩ "-2^+2*x - -y!" .empty).program
        = .ok [.push (.ofNat 4), .load 0 "x", .apply (.binary .multiply), .load 1 "y",
          .apply (.unary .factorial), .apply (.unary .minus), .apply (.binary .subtract)] ∧
      ∃ v, Kernels.standard.scalar.runs (slotsOf [.ofNat 5, .ofNat 3]) [.push (.ofNat 4),
          .load 0 "x", .apply (.binary .multiply), .load 1 "y", .apply (.unary .factorial),
          .apply (.unary .minus), .apply (.binary .subtract)] 3 [.nan, .infinity]
        = ([.ok v, .ok v, .ok v], [.nan, .infinity]) := by
  have h : (compile ⟨.standard, true⟩ "-2^+2*x - -y!" .empty).program
      = .ok [.push (.ofNat 4), .load 0 "x", .apply (.binary .multiply), .load 1 "y",
        .apply (.unary .factorial), .apply (.unary .minus), .apply (.binary .subtract)] := by
    decide +kernel
  have hvalues : (compile ⟨.standard, true⟩ "-2^+2*x - -y!" .empty).table.size
      ≤ [Double.ofNat 5, .ofNat 3].length := by
    decide +kernel
  obtain ⟨-, v, hrun⟩ :=
    run_compile ⟨.standard, true⟩ .standard _ .empty [.ofNat 5, .ofNat 3] h hvalues
  exact ⟨h, v, (hrun _).2 3⟩

end Formula
