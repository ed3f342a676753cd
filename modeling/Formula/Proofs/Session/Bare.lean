import Formula.Proofs.Expression.Compiled
import Formula.Proofs.Program.Congruence
import Formula.Proofs.Table.Values

/-!
# Expressions by name

An expression keeps its values in slots. The same expression can be told without slots: a program,
the names that it knows, and a function from names to values. `Expression.bare` forgets the slots.
Whatever an expression answers can be answered from what is left, and what changes an expression
changes it in the same way.
-/

namespace Formula

/-- A program with the names it knows and a value for each of them. -/
structure BareExpression where
  source : String
  program : Program
  known : List String
  value : String → Double

/-- What the slots of a program hold if its names stand for something. -/
def Program.slotsBy {α : Type} (p : Program) (value : String → α) (slot : Nat) : Option α :=
  (p.loads.lookup slot).map value

namespace BareExpression

/-- Compiles a text. The constants have their values, all other names are NaN. -/
def ofText (K : Kernels) (fold : Bool) (text : String) : Except CompileError BareExpression :=
  let c := compile ⟨K, fold⟩ text .withConstants
  c.program.map fun program =>
    ⟨text, program, c.table.names, fun name => (Table.constants.lookup name).getD .nan⟩

/-- Gives a known name a value. -/
def set (e : BareExpression) (name : String) (v : Double) : BareExpression :=
  if name ∈ e.known then { e with value := Function.update e.value name v } else e

def setAll (e : BareExpression) (bindings : List (String × Double)) : BareExpression :=
  bindings.foldl (fun e b => e.set b.1 b.2) e

def lookup (e : BareExpression) (name : String) : Option Double :=
  if name ∈ e.known then some (e.value name) else none

def entries (e : BareExpression) : List (String × Double) :=
  e.known.map fun name => (name, e.value name)

/-- The names that the program loads and that are no constants. -/
def freeVariables (e : BareExpression) : List String :=
  e.program.loadedNames.filter fun name => !Table.isConstant name

def eval (e : BareExpression) (K : Kernels) : Except RunError Double :=
  K.scalar.eval (e.program.slotsBy e.value) e.program

/-- Evaluates with the column of a name in place of its value, if there is one. -/
def evalBatch (e : BareExpression) (K : Kernels) (columns : List (String × Tensor Double)) :
    Except RunError (Tensor Double) :=
  K.batch.eval
    (e.program.slotsBy fun name => (columns.reverse.lookup name).getD (.scalar (e.value name)))
    e.program

end BareExpression

/-! ## Slots and names -/

/-- A slot that is loaded holds what its name stands for. -/
theorem Program.Over.slotsBy_eq {α : Type} {p : Program} {names : List String} (h : p.Over names)
    (value : String → α) {slot : Nat} {name : String} (hl : (slot, name) ∈ p.loads) :
    p.slotsBy value slot = some (value name) := by
  unfold slotsBy
  cases hlookup : p.loads.lookup slot with
  | none =>
    have hne := List.lookup_eq_none_iff.mp hlookup _ hl
    simp at hne
  | some other =>
    have hother : (slot, other) ∈ p.loads := mem_of_lookup_eq_some hlookup
    rw [h.name_unique hother hl]
    rfl

namespace Expression

/-- The column of a slot is the column of its name. -/
theorem lastGiven_columnSlots (e : Expression) (columns : List (String × Tensor Double))
    {name : String} (h : name ∈ e.table.names) :
    lastGiven (e.columnSlots columns) (e.table.names.idxOf name) = columns.reverse.lookup name := by
  rw [lastGiven, columnSlots, ← List.filterMap_reverse]
  induction columns.reverse with
  | nil => rfl
  | cons c columns ih =>
    obtain ⟨word, column⟩ := c
    by_cases hword : word ∈ e.table.names
    · have hslot : e.table.names.idxOf name = e.table.names.idxOf word ↔ name = word :=
        List.idxOf_inj h
      simp [List.lookup_cons, Table.slot?_of_mem hword, ih, beq_eq_decide, hslot]
    · have hne : name ≠ word := by
        intro heq
        exact hword (heq ▸ h)
      simp [List.lookup_cons, Table.slot?_of_not_mem hword, ih, beq_eq_decide, hne]

/-! ## Forgetting the slots -/

/-- An expression without its slots. -/
def bare (e : Expression) : BareExpression :=
  ⟨e.source, e.program, e.table.names, e.table.valueOf⟩

/-- **Compiling gives the constants their values, and NaN to all other names.** -/
theorem bare_ofText (K : Kernels) (fold : Bool) (text : String) :
    (Expression.ofText K fold text).map bare = BareExpression.ofText K fold text := by
  unfold Expression.ofText Template.ofText BareExpression.ofText
  cases h : (compile ⟨K, fold⟩ text .withConstants).program with
  | error e => simp only [h]; rfl
  | ok p =>
    obtain ⟨t, ht⟩ := exists_isReading_of_compile .withConstants h
    have hvalue : (compile ⟨K, fold⟩ text .withConstants).table.valueOf
        = Table.withConstants.valueOf := by
      rw [table_compile_of_isReading .withConstants ⟨K, fold⟩ ht, Table.valueOf_registerAll]
    simp only [h, Except.map, ofTemplate, bare, hvalue]
    rfl

theorem bare_set (e : Expression) (name : String) (v : Double) :
    (e.set name v).bare = e.bare.set name v := by
  unfold BareExpression.set
  by_cases h : name ∈ e.table.names
  · rw [if_pos (show name ∈ e.bare.known from h)]
    simp [bare, set, Table.names_set, Table.valueOf_set, h]
  · rw [if_neg (show name ∉ e.bare.known from h)]
    simp [bare, set, Table.names_set, Table.valueOf_set, h]

theorem bare_setAll (e : Expression) (bindings : List (String × Double)) :
    (e.setAll bindings).bare = e.bare.setAll bindings := by
  induction bindings generalizing e with
  | nil => rfl
  | cons b bindings ih =>
    show ((e.set b.1 b.2).setAll bindings).bare = (e.bare.set b.1 b.2).setAll bindings
    rw [ih, bare_set]

theorem lookup_bare (e : Expression) (name : String) : e.bare.lookup name = e.lookup name := by
  show (if name ∈ e.table.names then some (e.table.valueOf name) else none) = e.table.lookup name
  split
  · next h => rw [Table.lookup_of_mem h]
  · next h => rw [Table.lookup_of_not_mem h]

theorem entries_bare (e : Expression) : e.bare.entries = e.table.entries :=
  e.table.entries_eq_graph.symm

variable {e : Expression}

/-- **Evaluating needs no more than the values of the names.** -/
theorem Compiled.eval_bare (h : e.Compiled) (K : Kernels) : e.bare.eval K = e.eval K := by
  refine K.scalar.eval_congr ?_
  rintro ⟨slot, name⟩ hl
  obtain ⟨hname, hslot⟩ := h.load hl
  show e.program.slotsBy e.table.valueOf slot = slotsOf e.table.values slot
  rw [h.slotsBy_eq _ hl, hslot, slotsOf, Table.getElem?_values_idxOf hname]

/-- **Evaluating over columns needs the columns of the names besides.** -/
theorem Compiled.evalBatch_bare (h : e.Compiled) (K : Kernels)
    (columns : List (String × Tensor Double)) :
    e.bare.evalBatch K columns = e.evalBatch K columns := by
  refine K.batch.eval_congr ?_
  rintro ⟨slot, name⟩ hl
  obtain ⟨hname, hslot⟩ := h.load hl
  show e.program.slotsBy _ slot = slotsWith (e.columnSlots columns) e.table.values slot
  rw [h.slotsBy_eq _ hl, hslot, slotsWith, e.lastGiven_columnSlots columns hname,
    Table.getElem?_values_idxOf hname]
  cases columns.reverse.lookup name with
  | some column => rfl
  | none => rfl

end Expression

end Formula
