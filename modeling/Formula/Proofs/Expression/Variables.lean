import Formula.Proofs.Closure.Agreement
import Formula.Proofs.Recency

/-!
# The variables of an expression

An expression has two lists of its variables. The table has the names in the order in which they
were read, and the program has them in the order of its loads. The lists agree behind the constants:
operators are put in another order when a text is compiled, but operands are not, and folding leaves
every name where it is. So the free variables of an expression are the names of its text that are no
constants, each at its first place (`freeVariables_ofText`).
-/

namespace Formula

theorem Tree.loadedNames_program (t : Tree) (slot : String → Nat) :
    Program.loadedNames (t.program slot) = t.names.eraseDups := by
  rw [Program.loadedNames_eq, t.loads_program, List.map_map]
  exact congrArg List.eraseDups (List.map_id _)

/-- To the constants, all other names are new. -/
theorem Table.newNames_withConstants (names : List String) :
    withConstants.newNames names = (names.filter fun name => !isConstant name).eraseDups := rfl

namespace Expression

variable {K : Kernels} {fold : Bool} {text : String} {e : Expression}

/-- An expression holds the program of the folded tree of its text, over the names of the tree. -/
theorem exists_tree_of_ofText (h : Expression.ofText K fold text = .ok e) :
    ∃ t, IsReading text t ∧ e.program = (Folding.tree ⟨K, fold⟩ t).program e.table.names.idxOf ∧
      e.table = Table.withConstants.registerAll t.names := by
  obtain ⟨-, hprogram, htable⟩ := ofText_eq_ok_iff.mp h
  obtain ⟨t, ht⟩ := exists_isReading_of_compile .withConstants hprogram
  rw [table_compile_of_isReading .withConstants _ ht] at htable
  rw [program_compile_of_isReading .withConstants _ ht, htable] at hprogram
  exact ⟨t, ht, (Except.ok.inj hprogram).symm, htable.symm⟩

/-- The free variables of an expression are the names of its tree that are no constants. -/
theorem freeVariables_eq_of_program {t : Tree} {slot : String → Nat}
    (h : e.program = (Folding.tree ⟨K, fold⟩ t).program slot) :
    e.freeVariables = (t.names.filter fun name => !Table.isConstant name).eraseDups := by
  rw [freeVariables, h, Tree.loadedNames_program, Folding.names_tree, eraseDups_filter]

/-- Two loads are of one slot exactly if they are of one name. -/
theorem Compiled.slot_eq_iff (h : e.Compiled) {l l' : Nat × String} (hl : l ∈ e.program.loads)
    (hl' : l' ∈ e.program.loads) : l.1 = l'.1 ↔ l.2 = l'.2 := by
  obtain ⟨hmem, hslot⟩ := h.load hl
  obtain ⟨-, hslot'⟩ := h.load hl'
  rw [hslot, hslot']
  exact List.idxOf_inj hmem

/-- A load takes its name from the slot of that name. -/
theorem Compiled.slot_eq (h : e.Compiled) {l : Nat × String} (hl : l ∈ e.program.loads) :
    e.table.slot l.2 = .ok l.1 := by
  obtain ⟨hmem, hslot⟩ := h.load hl
  rw [Table.slot, Table.slot?_of_mem hmem, ← hslot]

/-- An expression is a function of its free variables. -/
theorem Compiled.exists_closure (h : e.Compiled) :
    ∃ f, Closure.ofExpression e none = .ok f ∧ f.argNames = e.freeVariables :=
  ⟨_, Closure.ofExpression_of_known fun _ hname => h.mem_names_of_free hname, rfl⟩

end Expression

/--
**The free variables of an expression are the names of its text, in order.**

The text is spelled by the tokens that are read in it, and these are an expression. Behind the
constants, the table has the free variables, and both have the names among the tokens that are no
constants, each at its first place. A load takes its name from the slot of that name, so one name
has one slot and no two names share one. No function is taken for a name. Whatever is set, the
expression is a function of its free variables, in that order.
-/
theorem freeVariables_ofText {K : Kernels} {fold : Bool} {text : String} {e : Expression}
    (h : Expression.ofText K fold text = .ok e) :
    (Splits text.toList (tokensOf text) ∧ ∃ t, Phrase .expr (tokensOf text) t) ∧
      e.table.names = Table.constants.map Prod.fst ++ e.freeVariables ∧
      e.freeVariables = (((tokensOf text).filterMap Token.name?).filter
        fun name => !Table.isConstant name).eraseDups ∧
      (∀ slot name, .load slot name ∈ e.program → e.table.slot name = .ok slot) ∧
      (∀ slot name slot' name', .load slot name ∈ e.program → .load slot' name' ∈ e.program →
        (slot = slot' ↔ name = name')) ∧
      (∀ f : NamedFunction, f.symbol ∉ e.table.names) ∧
      ∀ bindings, ∃ f, Closure.ofExpression (e.setAll bindings) none = .ok f ∧
        f.argNames = e.freeVariables := by
  have hcompiled := Expression.Compiled.ofText h
  obtain ⟨t, ht, hprogram, htable⟩ := Expression.exists_tree_of_ofText h
  obtain ⟨hsplits, hphrase⟩ := ht.tokensOf
  have hfree := Expression.freeVariables_eq_of_program hprogram
  have hnames : e.table.names = Table.constants.map Prod.fst ++ e.freeVariables := by
    rw [htable, Table.names_registerAll, Table.newNames_withConstants, ← hfree]
    rfl
  rw [← hphrase.filterMap_name?] at hfree
  refine ⟨⟨hsplits, t, hphrase⟩, hnames, hfree, ?_, ?_, ?_, ?_⟩
  · intro slot name hload
    exact hcompiled.slot_eq (Program.mem_loads.mpr hload)
  · intro slot name slot' name' hload hload'
    exact hcompiled.slot_eq_iff (Program.mem_loads.mpr hload) (Program.mem_loads.mpr hload')
  · intro f hf
    rw [hnames, List.mem_append] at hf
    rcases hf with hf | hf
    · have hconstant : ∀ f : NamedFunction, f.symbol ∉ Table.constants.map Prod.fst := by
        intro f
        cases f <;> decide
      exact hconstant f hf
    · rw [hfree, List.mem_eraseDups] at hf
      exact hsplits.symbol_not_mem f (List.mem_filter.mp hf).1
  · intro bindings
    exact (hcompiled.setAll bindings).exists_closure

/-- The divisor is folded, and a constant stands before the first of the two variables. -/
theorem freeVariables_ofText_two_variables :
    ∃ e, Expression.ofText .standard true "2*e^y - sin(x*-y)/(3+4)" = .ok e ∧
      e.table.names = Table.constants.map Prod.fst ++ ["y", "x"] ∧
      (∀ f : NamedFunction, f.symbol ∉ e.table.names) ∧
      ∀ bindings, ∃ f, Closure.ofExpression (e.setAll bindings) none = .ok f ∧
        f.argNames = ["y", "x"] := by
  have hprogram : (compile ⟨.standard, true⟩ "2*e^y - sin(x*-y)/(3+4)" .withConstants).program
      = .ok [.push (.ofNat 2), .load 1 "e", .load 7 "y", .apply (.binary .power),
        .apply (.binary .multiply), .load 8 "x", .load 7 "y", .apply (.unary .minus),
        .apply (.binary .multiply), .apply (.unary (.call .sin)), .push (.ofNat 7),
        .apply (.binary .divide), .apply (.binary .subtract)] := by
    decide +kernel
  have he : Expression.ofText .standard true "2*e^y - sin(x*-y)/(3+4)" = .ok ⟨_, _, _⟩ :=
    Expression.ofText_eq_ok_iff.mpr ⟨rfl, hprogram, rfl⟩
  obtain ⟨-, hnames, -, -, -, hfunctions, hclosure⟩ := freeVariables_ofText he
  exact ⟨_, he, hnames, hfunctions, hclosure⟩

end Formula
