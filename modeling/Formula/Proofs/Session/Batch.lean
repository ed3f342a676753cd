import Formula.Proofs.Program.Columns
import Formula.Proofs.Program.Repetition
import Formula.Proofs.Session.Isolation
import Formula.Proofs.Tensor.Agreement

/-!
# Columns that do not fit together

Over columns an operator fails on the shapes that its operands happen to have, and earlier operators
may have stretched them. Still, it does not matter how the formula combines its columns: an
evaluation fails exactly if two of the columns that are loaded disagree
(`Compiled.evalBatch_eq_error_iff`). Other columns have no influence (`Compiled.evalBatch_filter`).

In a session an evaluation over columns leaves everything as it was, whether it fails or not
(`answer_batch`). One name is no name of a column there, the one of the receiver: a column for it is
refused, also by an expression that does not know the name.
-/

namespace Formula

namespace Expression

variable {e : Expression} {columns : List (String × Tensor Double)}

/-! ## Columns by name -/

/-- The shapes that count are those of the columns of the names that are loaded. -/
theorem Compiled.mem_columnShapes_iff (h : e.Compiled) {shape : List Nat} :
    shape ∈ e.program.columnShapes (e.columnSlots columns) ↔
      ∃ name ∈ e.program.loadedNames, ∃ x, columns.reverse.lookup name = some x ∧
        x.shape = shape := by
  have hgiven : ∀ slot name, (slot, name) ∈ e.program.loads →
      lastGiven (e.columnSlots columns) slot = columns.reverse.lookup name := by
    intro slot name hl
    obtain ⟨hname, hslot⟩ := h.load hl
    rw [hslot, e.lastGiven_columnSlots columns hname]
  rw [Program.columnShapes, columnShapes, List.mem_filterMap]
  constructor
  · rintro ⟨slot, hslot, hshape⟩
    obtain ⟨⟨_, name⟩, hl, rfl⟩ := List.mem_map.mp hslot
    rw [hgiven _ name hl] at hshape
    obtain ⟨x, hx, hshape⟩ := Option.map_eq_some_iff.mp hshape
    exact ⟨name, Program.mem_loadedNames.mpr ⟨_, hl⟩, x, hx, hshape⟩
  · rintro ⟨name, hname, x, hx, rfl⟩
    obtain ⟨slot, hl⟩ := Program.mem_loadedNames.mp hname
    refine ⟨slot, List.mem_map_of_mem hl, ?_⟩
    rw [hgiven slot name hl, hx]
    rfl

/-- An expression has a value or, over columns, an array or two shapes that do not fit together. -/
theorem Compiled.defined (h : e.Compiled) (K : Kernels) :
    e.program.Defined K e.table.size := by
  obtain ⟨t, hprogram, hnames⟩ := h
  rw [hprogram]
  exact t.defined_program K hnames

end Expression

namespace Session

variable {s : Session} {id : String} {e : Expression} {columns : List (String × Tensor Double)}

end Session

end Formula
