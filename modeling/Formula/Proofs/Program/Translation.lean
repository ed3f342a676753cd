import Mathlib.Control.Monad.Basic
import Formula.Proofs.Program.Folding

/-!
# Compiling a formula

A text compiles exactly if it reads as a formula, with and without folding and over any table. The
program is that of the folded tree of the text (`program_compile_of_isReading`); without folding it
lists the tree itself in postorder (`program_compile_unfolded`).
-/

namespace Formula

/-! ## Texts that read as formulas -/

section

variable {text : String} {t : Tree} (table : Table)

/-- The names of a formula are registered, whether or not constants are folded. -/
theorem table_compile_of_isReading (F : Folding) (h : IsReading text t) :
    (compile F text table).table = table.registerAll t.names := by
  obtain ⟨-, os, hos⟩ := Ordered.ofText_of_isReading h
  rw [compile_eq, ← t.filterMap_name?_postorder, ← hos, List.filterMap_append]
  show ((Ordered.ofText text).released.foldl F.put (Draft.mk [] table)).table = _
  rw [F.table_foldl_put, Token.filterMap_name?_ops, List.append_nil]

/-- The program of a formula is that of its folded tree. -/
theorem program_compile_of_isReading (F : Folding) (h : IsReading text t) :
    (compile F text table).program
      = .ok ((F.tree t).program (table.registerAll t.names).names.idxOf) := by
  rw [compile_eq, (Ordered.ofText_of_isReading h).1]
  show Except.ok (t.postorder.foldl F.put ⟨[], table⟩).output.reverse = _
  rw [F.foldl_put_postorder t _ ⟨[], table⟩ fun _ _ => rfl, List.append_nil, List.reverse_reverse]

/-- Without folding it is that of the tree itself. -/
theorem program_compile_unfolded (K : Kernels) (h : IsReading text t) :
    (compile ⟨K, false⟩ text table).program
      = .ok (t.program (table.registerAll t.names).names.idxOf) := by
  rw [program_compile_of_isReading table _ h, Folding.program_tree_of_not_enabled rfl]

/-- A text that compiles has a tree. -/
theorem exists_isReading_of_compile {F : Folding} {p : Program}
    (h : (compile F text table).program = .ok p) : ∃ t, IsReading text t := by
  rw [compile_eq] at h
  cases hr : (Ordered.ofText text).result with
  | error e => rw [hr] at h; cases h
  | ok ts =>
    obtain ⟨t, ht, -⟩ := Ordered.result_eq_ok_iff.mp hr
    exact ⟨t, ht⟩

end

/--
**A text compiles exactly if it reads as a formula.**

In all other cases there is an error. Neither the table nor the folding has a say in it.
-/
theorem compile_succeeds_iff (F : Folding) (text : String) (table : Table) :
    ((∃ p, (compile F text table).program = .ok p) ↔ ∃ t, IsReading text t) ∧
      ((∃ e, (compile F text table).program = .error e) ↔ ¬∃ t, IsReading text t) := by
  have hok : (∃ p, (compile F text table).program = .ok p) ↔ ∃ t, IsReading text t := by
    constructor
    · rintro ⟨p, hp⟩
      exact exists_isReading_of_compile table hp
    · rintro ⟨t, ht⟩
      rw [compile_eq, (Ordered.ofText_of_isReading ht).1]
      exact ⟨_, rfl⟩
  refine ⟨hok, ?_⟩
  rw [← hok]
  cases (compile F text table).program with
  | ok p => exact ⟨fun ⟨_, he⟩ => (nomatch he), fun hn => absurd ⟨p, rfl⟩ hn⟩
  | error e => exact ⟨fun _ ⟨_, hp⟩ => (nomatch hp), fun _ => ⟨e, rfl⟩⟩

/--
**Without folding, the program lists the tree of the text in postorder.**

The text has exactly one tree. Each leaf is one instruction and so is each operator, apart from
positive signs; a name is loaded from its slot in the table that is left, which is the table before
with the names of the tree registered from left to right.
-/
theorem compile_unfolded (K : Kernels) (text : String) (table : Table) {p : Program}
    (h : (compile ⟨K, false⟩ text table).program = .ok p) :
    ∃ t, IsReading text t ∧ (∀ u, IsReading text u → u = t) ∧
      (compile ⟨K, false⟩ text table).table = table.registerAll t.names ∧
      p = t.program (compile ⟨K, false⟩ text table).table.names.idxOf := by
  obtain ⟨t, ht⟩ := exists_isReading_of_compile table h
  have htable := table_compile_of_isReading table ⟨K, false⟩ ht
  refine ⟨t, ht, fun u hu => hu.unique ht, htable, ?_⟩
  rw [program_compile_unfolded table K ht] at h
  rw [htable]
  exact (Except.ok.inj h).symm

/-- A sign behind a power, a sign that is left out, and a factorial within a function. -/
theorem compile_unfolded_signs :
    (compile ⟨.standard, false⟩ "2^-x^+y - sin z!" .withConstants).program
        = .ok [.push (.ofNat 2), .load 7 "x", .apply (.unary .minus), .load 8 "y",
          .apply (.binary .power), .apply (.binary .power), .load 9 "z",
          .apply (.unary .factorial), .apply (.unary (.call .sin)), .apply (.binary .subtract)] ∧
      ∃ t, IsReading "2^-x^+y - sin z!" t ∧
        [.push (.ofNat 2), .load 7 "x", .apply (.unary .minus), .load 8 "y",
          .apply (.binary .power), .apply (.binary .power), .load 9 "z",
          .apply (.unary .factorial), .apply (.unary (.call .sin)), .apply (.binary .subtract)]
          = t.program (compile ⟨.standard, false⟩ "2^-x^+y - sin z!"
              .withConstants).table.names.idxOf := by
  have h : (compile ⟨.standard, false⟩ "2^-x^+y - sin z!" .withConstants).program
      = .ok [.push (.ofNat 2), .load 7 "x", .apply (.unary .minus), .load 8 "y",
        .apply (.binary .power), .apply (.binary .power), .load 9 "z",
        .apply (.unary .factorial), .apply (.unary (.call .sin)), .apply (.binary .subtract)] := by
    decide +kernel
  obtain ⟨t, ht, -, -, hp⟩ := compile_unfolded .standard _ .withConstants h
  exact ⟨h, t, ht, hp⟩

end Formula
