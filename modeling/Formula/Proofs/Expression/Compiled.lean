import Formula.Proofs.Program.Names
import Formula.Proofs.Table.Values
import Formula.Expression.Basic

/-!
# Expressions of texts

An expression that was built from a text holds a program over the names of its table, and setting
variables keeps it so (`Compiled.setAll`). This is all that the evaluation of an expression rests
on, whatever has happened to its variables.
-/

namespace Formula

/-- What a text compiles to, with nothing set. -/
theorem Template.ofText_eq_ok_iff {K : Kernels} {fold : Bool} {text : String} {t : Template} :
    Template.ofText K fold text = .ok t ↔
      (compile ⟨K, fold⟩ text .withConstants).program = .ok t.program ∧
        (compile ⟨K, fold⟩ text .withConstants).table = t.table := by
  unfold ofText
  cases h : (compile ⟨K, fold⟩ text .withConstants).program with
  | error e => simp [h]
  | ok p =>
    simp only [h, Except.ok.injEq]
    constructor
    · rintro rfl
      exact ⟨rfl, rfl⟩
    · rintro ⟨rfl, htable⟩
      rw [htable]

namespace Expression

/-- The program is one over the names of the table. -/
def Compiled (e : Expression) : Prop := e.program.Over e.table.names

variable {e : Expression}

/-- The expression of a text is what the text compiles to. -/
theorem ofText_eq_ok_iff {K : Kernels} {fold : Bool} {text : String} :
    Expression.ofText K fold text = .ok e ↔
      e.source = text ∧ (compile ⟨K, fold⟩ text .withConstants).program = .ok e.program ∧
        (compile ⟨K, fold⟩ text .withConstants).table = e.table := by
  rw [← Template.ofText_eq_ok_iff (t := ⟨e.program, e.table⟩), Expression.ofText]
  cases Template.ofText K fold text with
  | error err => simp
  | ok t =>
    obtain ⟨program, table⟩ := t
    obtain ⟨source, program', table'⟩ := e
    simp [ofTemplate, eq_comm]

theorem Compiled.ofText {K : Kernels} {fold : Bool} {text : String}
    (h : Expression.ofText K fold text = .ok e) : e.Compiled := by
  obtain ⟨-, hprogram, htable⟩ := ofText_eq_ok_iff.mp h
  rw [Compiled, ← htable]
  exact over_of_compile hprogram

@[simp] theorem names_setAll (e : Expression) (bindings : List (String × Double)) :
    (e.setAll bindings).table.names = e.table.names := e.table.names_setAll bindings

theorem Compiled.setAll (h : e.Compiled) (bindings : List (String × Double)) :
    (e.setAll bindings).Compiled := by
  rw [Compiled, names_setAll]
  exact h

/-- Every slot that is loaded has a value. -/
theorem Compiled.slot_lt (h : e.Compiled) {l : Nat × String} (hl : l ∈ e.program.loads) :
    l.1 < e.table.values.length := by
  obtain ⟨hmem, hslot⟩ := h.load hl
  have hlt : e.table.names.idxOf l.2 < e.table.size := Table.idxOf_lt_size hmem
  rw [hslot]
  simpa [Table.values, Table.size] using hlt

/-- A run yields the value of the expression and leaves the stack as it was. -/
theorem Compiled.run_eq (h : e.Compiled) (K : Kernels) (stack : List Double) :
    K.scalar.run (slotsOf e.table.values) e.program stack = ⟨e.eval K, stack⟩ := by
  obtain ⟨t, hprogram, hnames⟩ := h
  have hvalues : e.table.size ≤ e.table.values.length := by simp [Table.size, Table.values]
  have hrun := run_program_slotsOf K t hnames hvalues
  rw [← hprogram] at hrun
  rw [eval, Arithmetic.eval, hrun, hrun]

/-! ## Values of formulas -/

/-- What a name stands for after all bindings: the value it was given last, else that of a constant
or NaN. -/
def given (bindings : List (String × Double)) (name : String) : Double :=
  (bindings.reverse.lookup name).getD (Table.withConstants.valueOf name)

/-- **A formula has the value of its tree**, whatever its variables are set to. -/
theorem eval_setAll_of_isReading (K : Kernels) (fold : Bool) {text : String} {t : Tree}
    (h : IsReading text t) :
    ∃ e, Expression.ofText K fold text = .ok e ∧
      ∀ bindings, (e.setAll bindings).eval K = .ok (t.eval K (given bindings)) := by
  have hprogram := program_compile_of_isReading .withConstants ⟨K, fold⟩ h
  have htable := table_compile_of_isReading .withConstants ⟨K, fold⟩ h
  obtain ⟨table, hregister⟩ : ∃ table, Table.withConstants.registerAll t.names = table := ⟨_, rfl⟩
  rw [hregister] at hprogram htable
  refine ⟨⟨text, (Folding.tree ⟨K, fold⟩ t).program table.names.idxOf, table⟩,
    ofText_eq_ok_iff.mpr ⟨rfl, hprogram, htable⟩, fun bindings => ?_⟩
  have hvalue : ∀ word ∈ t.names,
      loaded (slotsOf (table.setAll bindings).values) (table.names.idxOf word)
        = .ok (given bindings word) := by
    intro word hword
    have hmem : word ∈ table.names := hregister ▸ Table.mem_names_registerAll _ hword
    have hslot : word ∈ (table.setAll bindings).names := by rwa [Table.names_setAll]
    rw [loaded, slotsOf, ← table.names_setAll bindings, Table.getElem?_values_idxOf hslot,
      Table.valueOf_setAll hmem, ← hregister, Table.valueOf_registerAll]
    rfl
  rw [eval, Arithmetic.eval]
  show (K.scalar.run (slotsOf (table.setAll bindings).values)
    ((Folding.tree ⟨K, fold⟩ t).program table.names.idxOf) []).result = _
  rw [Folding.run_tree ⟨K, fold⟩ K.extends_scalar,
    K.scalar.run_program_of_ok _ _ (t.evalIn_scalar K hvalue)]

/-! ## Free variables -/

/-- The free variables are names of the table. -/
theorem Compiled.mem_names_of_free (h : e.Compiled) {name : String}
    (hname : name ∈ e.freeVariables) : name ∈ e.table.names := by
  obtain ⟨hloaded, -⟩ := List.mem_filter.mp hname
  obtain ⟨slot, hl⟩ := Program.mem_loadedNames.mp hloaded
  exact (h.load hl).1

end Expression

end Formula
