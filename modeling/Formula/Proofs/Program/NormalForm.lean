import Formula.Proofs.Program.Names

/-!
# Folded programs are in normal form

Within a program, an expression is a row of instructions that yields one value: operators stand
behind their operands. Folding takes each largest expression without loads and puts its value in its
place; all other instructions stay as they are and where they are (`Program.Folds`). The program
that is compiled with folding comes from the one without in this way (`folds_program_tree`).

Folding while a text is compiled is no more than emitting the finished program once more, one
instruction after the other (`Folds.foldl_reemit`). That says what cannot be in the outcome: an
operator whose operands are all constants (`isNormal_refold`). So nothing is left to fold.
-/

namespace Formula

/-! ## Expressions in a program -/

namespace Program

/-- A row of instructions that yields one value. A positive sign is not an instruction. -/
inductive IsExpression : Program → Prop where
  | push (v) : IsExpression [.push v]
  | load (slot name) : IsExpression [.load slot name]
  | unary {u p} : u ≠ .plus → IsExpression p → IsExpression (p ++ [.apply (.unary u)])
  | binary {b p q} : IsExpression p → IsExpression q →
    IsExpression (p ++ q ++ [.apply (.binary b)])

/-- Each largest expression without loads gives way to its value, and everything else stays. -/
inductive Folds (K : Kernels) : Program → Program → Prop where
  | constant {s v} : s.IsExpression → s.loads = [] →
    (∀ values, K.scalar.eval (slotsOf values) s = .ok v) → Folds K s [.push v]
  | load (slot name) : Folds K [.load slot name] [.load slot name]
  | unary {u p p'} : u ≠ .plus → p.loads ≠ [] → Folds K p p' →
    Folds K (p ++ [.apply (.unary u)]) (p' ++ [.apply (.unary u)])
  | binary {b p q p' q'} : p.loads ≠ [] ∨ q.loads ≠ [] → Folds K p p' → Folds K q q' →
    Folds K (p ++ q ++ [.apply (.binary b)]) (p' ++ q' ++ [.apply (.binary b)])

/-- No operator has only constants as its operands. -/
structure IsNormal (p : Program) : Prop where
  unary (v : Double) (u : UnaryOp) : ¬[.push v, .apply (.unary u)] <:+: p
  binary (v w : Double) (b : BinaryOp) : ¬[.push v, .push w, .apply (.binary b)] <:+: p

theorem loads_append (p q : Program) : (p ++ q).loads = p.loads ++ q.loads :=
  List.filterMap_append

/-- Operators load nothing. -/
theorem loads_concat_apply (p : Program) (o : Op) : (p ++ [Instr.apply o]).loads = p.loads :=
  (loads_append p _).trans (List.append_nil _)

/-- **In a normal program every expression without loads is a constant.** -/
theorem IsNormal.eq_push {p s : Program} (hp : p.IsNormal) (hs : s.IsExpression)
    (hloads : s.loads = []) (hwithin : s <:+: p) : ∃ v, s = [.push v] := by
  induction hs with
  | push v => exact ⟨v, rfl⟩
  | load slot name => cases hloads
  | @unary u s hu _ ih =>
    rw [loads_concat_apply] at hloads
    obtain ⟨v, rfl⟩ := ih hloads ((List.prefix_append s _).isInfix.trans hwithin)
    exact absurd hwithin (hp.unary v u)
  | @binary b s r _ _ ihs ihr =>
    rw [loads_concat_apply, loads_append, List.append_eq_nil_iff] at hloads
    obtain ⟨v, rfl⟩ := ihs hloads.1
      ((List.prefix_append s (r ++ _)).isInfix.trans (by rwa [← List.append_assoc]))
    obtain ⟨w, rfl⟩ := ihr hloads.2 ((List.infix_append _ r _).trans hwithin)
    exact absurd hwithin (hp.binary v w b)

end Program

theorem Tree.isExpression_program (t : Tree) (slot : String → Nat) :
    Program.IsExpression (t.program slot) := by
  induction t with
  | number v => exact .push v
  | name word => exact .load _ word
  | unary u t ih =>
    by_cases hu : u = .plus
    · rw [hu]
      exact ih
    · rw [program_unary hu]
      exact .unary hu ih
  | binary b l r ihl ihr => exact .binary ihl ihr

/-! ## What folding does to a tree -/

namespace Folding

variable {F : Folding}

/-- **A tree without names becomes its value.** -/
theorem tree_of_names_eq_nil (hF : F.enabled = true) (ρ : String → Double) {t : Tree}
    (h : t.names = []) : F.tree t = .number (t.eval F.kernels ρ) := by
  induction t with
  | number v => rfl
  | name word => cases h
  | unary u t ih =>
    rw [tree, ih h, Tree.eval_unary]
    by_cases hu : u = .plus
    · rw [hu]
      rfl
    · rw [F.unary_number hu, if_pos hF]
  | binary b l r ihl ihr =>
    obtain ⟨hl, hr⟩ := List.append_eq_nil_iff.mp h
    rw [tree, ihl hl, ihr hr, binary, if_pos hF]
    rfl

/-- A tree with names does not become a value. -/
theorem tree_ne_number {t : Tree} (h : t.names ≠ []) (v : Double) : F.tree t ≠ .number v := by
  intro hv
  have hnames := F.names_tree t
  rw [hv] at hnames
  exact h hnames.symm

theorem folds_program_of_names_eq_nil (hF : F.enabled = true) {t : Tree} (h : t.names = [])
    (slot : String → Nat) : Program.Folds F.kernels (t.program slot) ((F.tree t).program slot) := by
  rw [tree_of_names_eq_nil hF (fun _ => .nan) h]
  refine .constant (t.isExpression_program slot) ?_ fun values => ?_
  · rw [Tree.loads_program, h]
    rfl
  · rw [Arithmetic.eval, Arithmetic.result_run_program]
    refine t.evalIn_scalar F.kernels fun word hword => ?_
    rw [h] at hword
    cases hword

/-- **The program of a tree folds to that of the folded tree.** -/
theorem folds_program_tree (hF : F.enabled = true) (t : Tree) (slot : String → Nat) :
    Program.Folds F.kernels (t.program slot) ((F.tree t).program slot) := by
  have hloads : ∀ t : Tree, t.names ≠ [] → Program.loads (t.program slot) ≠ [] := by
    intro t ht
    rw [Tree.loads_program]
    exact mt List.map_eq_nil_iff.mp ht
  induction t with
  | number v => exact folds_program_of_names_eq_nil hF rfl slot
  | name word => exact .load _ word
  | unary u t ih =>
    by_cases hu : u = .plus
    · rw [hu]
      exact ih
    by_cases hnames : t.names = []
    · exact folds_program_of_names_eq_nil (t := .unary u t) hF hnames slot
    · rw [tree, F.unary_of_ne_number hu (tree_ne_number hnames), Tree.program_unary hu,
        Tree.program_unary hu]
      exact .unary hu (hloads t hnames) ih
  | binary b l r ihl ihr =>
    by_cases hnames : l.names = [] ∧ r.names = []
    · refine folds_program_of_names_eq_nil hF ?_ slot
      exact List.append_eq_nil_iff.mpr hnames
    · -- an operand with names does not become a value
      have hsome : l.names ≠ [] ∨ r.names ≠ [] := not_and_or.mp hnames
      rw [tree, F.binary_of_ne_number (hsome.imp tree_ne_number tree_ne_number)]
      exact .binary (hsome.imp (hloads l) (hloads r)) ihl ihr

/-! ## Emitting a program once more -/

variable (F) in
/-- Emits one instruction; only operators can be computed. -/
def reemit (output : List Instr) : Instr → List Instr
  | .push v => .push v :: output
  | .load slot name => .load slot name :: output
  | .apply o => F.emit o output

variable (F) in
/-- Emits all instructions of a program, one after the other. -/
def refold (p : Program) : Program := (p.foldl F.reemit []).reverse

end Folding

namespace Program

variable {K : Kernels}

/-- An expression without loads is emitted as one constant, and it has this value in a run. -/
theorem IsExpression.exists_value {s : Program} (hs : s.IsExpression) (hloads : s.loads = []) :
    ∃ v, (∀ slots stack, K.scalar.exec slots s stack = .ok (v :: stack)) ∧
      ∀ output, s.foldl (Folding.reemit ⟨K, true⟩) output = .push v :: output := by
  induction hs with
  | push v => exact ⟨v, fun _ _ => rfl, fun _ => rfl⟩
  | load slot name => cases hloads
  | @unary u s hu _ ih =>
    rw [loads_concat_apply] at hloads
    obtain ⟨v, hexec, hemit⟩ := ih hloads
    refine ⟨K.unary u v, fun slots stack => ?_, fun output => ?_⟩
    · rw [Arithmetic.exec_append, hexec]
      rfl
    · rw [List.foldl_append, hemit]
      cases u with
      | plus => exact absurd rfl hu
      | minus | factorial | call f => rfl
  | @binary b s r _ _ ihs ihr =>
    rw [loads_concat_apply, loads_append, List.append_eq_nil_iff] at hloads
    obtain ⟨v, hexec, hemit⟩ := ihs hloads.1
    obtain ⟨w, hexec', hemit'⟩ := ihr hloads.2
    refine ⟨K.binary b v w, fun slots stack => ?_, fun output => ?_⟩
    · rw [List.append_assoc, Arithmetic.exec_append, hexec]
      show K.scalar.exec slots (r ++ _) (v :: stack) = _
      rw [Arithmetic.exec_append, hexec']
      rfl
    · rw [List.foldl_append, List.foldl_append, hemit, hemit']
      rfl

/-- What an expression folds to is a constant if it loads nothing, and else ends in no constant. -/
theorem Folds.last {q p : Program} (h : Folds K q p) :
    (q.loads = [] ∧ ∃ v, p = [.push v]) ∨
      q.loads ≠ [] ∧ ∃ i rest, p.reverse = i :: rest ∧ ∀ v, i ≠ .push v := by
  cases h with
  | constant _ hloads _ => exact .inl ⟨hloads, _, rfl⟩
  | load slot name => exact .inr ⟨nofun, _, [], rfl, nofun⟩
  | unary _ hloads _ =>
    rw [loads_concat_apply]
    exact .inr ⟨hloads, _, _, List.reverse_concat, nofun⟩
  | binary hloads _ _ =>
    rw [loads_concat_apply, loads_append, ne_eq, List.append_eq_nil_iff, not_and_or]
    exact .inr ⟨hloads, _, _, List.reverse_concat, nofun⟩

/-- **What a program folds to is emitted from it.** -/
theorem Folds.foldl_reemit {q p : Program} (h : Folds K q p) (output : List Instr) :
    q.foldl (Folding.reemit ⟨K, true⟩) output = p.reverse ++ output := by
  induction h generalizing output with
  | @constant s v hs hloads hvalue =>
    obtain ⟨w, hexec, hemit⟩ := hs.exists_value (K := K) hloads
    have hw : K.scalar.eval (slotsOf []) s = .ok w := by
      rw [Arithmetic.eval, Arithmetic.run, hexec]
    rw [hemit, Except.ok.inj (hw.symm.trans (hvalue []))]
    rfl
  | load slot name => rfl
  | @unary u q p hu hloads hfolds ih =>
    rcases hfolds.last with ⟨hnone, -⟩ | ⟨-, i, rest, hlast, hi⟩
    · exact absurd hnone hloads
    · rw [List.foldl_append, ih, List.reverse_concat, hlast]
      exact Folding.emit_of_last _ hi (by simpa using hu) _
  | @binary b q r q' r' hloads hq hr ihq ihr =>
    rw [List.foldl_append, List.foldl_append, ihq, ihr, List.reverse_concat, List.reverse_append,
      List.cons_append, List.append_assoc]
    show Folding.emit ⟨K, true⟩ (.binary b) (r'.reverse ++ (q'.reverse ++ output)) = _
    rcases hr.last with ⟨hnone, w, rfl⟩ | ⟨-, i, rest, hlast, hi⟩
    · rcases hq.last with ⟨hnone', -⟩ | ⟨-, i, rest, hlast, hi⟩
      · exact absurd hloads (not_or.mpr ⟨not_not_intro hnone', not_not_intro hnone⟩)
      · rw [hlast]
        exact Folding.emit_of_second _ hi b w _
    · have hplus : Op.binary b ≠ .unary .plus := by simp
      rw [hlast]
      exact Folding.emit_of_last _ hi hplus _

theorem Folds.eq_refold {q p : Program} (h : Folds K q p) :
    p = Folding.refold ⟨K, true⟩ q := by
  rw [Folding.refold, h.foldl_reemit, List.append_nil, List.reverse_reverse]

end Program

/-! ## Nothing is left to fold -/

/-- The instructions that were emitted, the last one first, hold no operator that has only constants
as its operands. -/
structure Settled (output : List Instr) : Prop where
  unary (v : Double) (u : UnaryOp) : ¬[.apply (.unary u), .push v] <:+: output
  binary (v w : Double) (b : BinaryOp) : ¬[.apply (.binary b), .push w, .push v] <:+: output

namespace Settled

variable {output : List Instr}

theorem nil : Settled [] where
  unary v u := by simp
  binary v w b := by simp

theorem tail {i : Instr} (h : Settled (i :: output)) : Settled output where
  unary v u hwithin := h.unary v u (hwithin.trans (List.suffix_cons i output).isInfix)
  binary v w b hwithin := h.binary v w b (hwithin.trans (List.suffix_cons i output).isInfix)

/-- An instruction may come first that is no operator. -/
theorem cons {i : Instr} (h : Settled output) (hi : ∀ o, i ≠ .apply o) :
    Settled (i :: output) where
  unary v u hwithin := by
    rcases List.infix_cons_iff.mp hwithin with hfirst | hlater
    · exact hi _ (List.cons_prefix_cons.mp hfirst).1.symm
    · exact h.unary v u hlater
  binary v w b hwithin := by
    rcases List.infix_cons_iff.mp hwithin with hfirst | hlater
    · exact hi _ (List.cons_prefix_cons.mp hfirst).1.symm
    · exact h.binary v w b hlater

/-- A unary operator may come first if no constant is next. -/
theorem cons_unary (h : Settled output) (u : UnaryOp) (hnext : ∀ v rest, output ≠ .push v :: rest) :
    Settled (.apply (.unary u) :: output) where
  unary v u' hwithin := by
    rcases List.infix_cons_iff.mp hwithin with hfirst | hlater
    · obtain ⟨rest, hrest⟩ := (List.cons_prefix_cons.mp hfirst).2
      exact hnext v rest hrest.symm
    · exact h.unary v u' hlater
  binary v w b hwithin := by
    rcases List.infix_cons_iff.mp hwithin with hfirst | hlater
    · cases (List.cons_prefix_cons.mp hfirst).1
    · exact h.binary v w b hlater

/-- A binary operator may come first if not two constants are next. -/
theorem cons_binary (h : Settled output) (b : BinaryOp)
    (hnext : ∀ v w rest, output ≠ .push w :: .push v :: rest) :
    Settled (.apply (.binary b) :: output) where
  unary v u hwithin := by
    rcases List.infix_cons_iff.mp hwithin with hfirst | hlater
    · cases (List.cons_prefix_cons.mp hfirst).1
    · exact h.unary v u hlater
  binary v w b' hwithin := by
    rcases List.infix_cons_iff.mp hwithin with hfirst | hlater
    · obtain ⟨rest, hrest⟩ := (List.cons_prefix_cons.mp hfirst).2
      exact hnext v w rest hrest.symm
    · exact h.binary v w b' hlater

theorem emit {F : Folding} (hF : F.enabled = true) (h : Settled output) (o : Op) :
    Settled (F.emit o output) := by
  unfold Folding.emit
  split
  · exact h
  · split
    · exact h.tail.cons nofun
    · next hnot =>
      refine h.cons_unary _ ?_
      rintro v rest rfl
      exact hnot v rest hF rfl
  · split
    · exact h.tail.tail.cons nofun
    · next hnot =>
      refine h.cons_binary _ ?_
      rintro v w rest rfl
      exact hnot w v rest hF rfl

/-- **One instruction.** -/
theorem reemit {F : Folding} (hF : F.enabled = true) (h : Settled output) (i : Instr) :
    Settled (F.reemit output i) := by
  cases i with
  | push v => exact h.cons nofun
  | load slot name => exact h.cons nofun
  | apply o => exact h.emit hF o

/-- **All instructions.** -/
theorem foldl_reemit {F : Folding} (hF : F.enabled = true) (h : Settled output) (p : Program) :
    Settled (p.foldl F.reemit output) := by
  induction p generalizing output with
  | nil => exact h
  | cons i p ih => exact ih (h.reemit hF i)

/-- In the order in which they are run. -/
theorem isNormal_reverse (h : Settled output) : Program.IsNormal output.reverse where
  unary v u hwithin := h.unary v u (List.reverse_infix.mp (by simpa using hwithin))
  binary v w b hwithin := h.binary v w b (List.reverse_infix.mp (by simpa using hwithin))

end Settled

/-- **What is emitted with folding is in normal form.** -/
theorem Folding.isNormal_refold {F : Folding} (hF : F.enabled = true) (p : Program) :
    (F.refold p).IsNormal := (Settled.nil.foldl_reemit hF p).isNormal_reverse

/-! ## Compiled formulas -/

/--
**Folding computes the normal form, and nothing else.**

Either a text compiles neither with folding nor without, with the same error. Or the program with
folding is the one without in which each largest expression without loads has given way to its
value; no other program is, and it is also what is emitted if the program without folding is emitted
once more with folding. In it no operator has only constants as its operands, and each expression
without loads is one constant. So a text without names compiles to one constant.
-/
theorem compile_folds (K : Kernels) (text : String) (table : Table) :
    (∃ e, (compile ⟨K, true⟩ text table).program = .error e ∧
        (compile ⟨K, false⟩ text table).program = .error e) ∨
      ∃ p q, (compile ⟨K, true⟩ text table).program = .ok p ∧
        (compile ⟨K, false⟩ text table).program = .ok q ∧
        (∀ p', Program.Folds K q p' ↔ p' = p) ∧
        p = Folding.refold ⟨K, true⟩ q ∧
        p.IsNormal ∧
        (∀ s : Program, s <:+: p → s.IsExpression → s.loads = [] → ∃ v, s = [.push v]) ∧
        ((∀ l ∈ (Tokens.ofText text).list, ∀ word, l.token ≠ .name word) → ∃ v, p = [.push v]) := by
  cases hresult : (Ordered.ofText text).result with
  | error e =>
    refine .inl ⟨e, ?_, ?_⟩ <;> simp only [compile_eq, hresult]
    · rfl
    · rfl
  | ok ts =>
    obtain ⟨t, ht, -⟩ := Ordered.result_eq_ok_iff.mp hresult
    obtain ⟨slot, hslot⟩ : ∃ slot, (table.registerAll t.names).names.idxOf = slot := ⟨_, rfl⟩
    have hfolded := program_compile_of_isReading table ⟨K, true⟩ ht
    have hunfolded := program_compile_unfolded table K ht
    rw [hslot] at hfolded hunfolded
    have hfolds := Folding.folds_program_tree (F := ⟨K, true⟩) rfl t slot
    have hnormal : ((Folding.tree ⟨K, true⟩ t).program slot).IsNormal := by
      rw [hfolds.eq_refold]
      exact Folding.isNormal_refold rfl _
    refine .inr ⟨_, _, hfolded, hunfolded, fun p' => ⟨fun hp' => ?_, ?_⟩, hfolds.eq_refold,
      hnormal, fun s hwithin hs hloads => hnormal.eq_push hs hloads hwithin, fun hnone => ?_⟩
    · rw [hp'.eq_refold, hfolds.eq_refold]
    · rintro rfl
      exact hfolds
    · have hnames : t.names = [] := by
        rw [← ht.filterMap_name?_tokens, List.filterMap_eq_nil_iff]
        intro l hl
        cases hl' : l.token with
        | name word => exact absurd hl' (hnone l hl word)
        | number v | op o | openBracket | closeBracket => rfl
      rw [Folding.tree_of_names_eq_nil rfl (fun _ => .nan) hnames]
      exact ⟨_, rfl⟩

/-- The two constants at the end are operands of different operators. -/
example : (compile ⟨.standard, true⟩ "x + 2 + 3*(1 + 3)!" .withConstants).program
    = .ok [.load 7 "x", .push (.ofNat 2), .apply (.binary .add), .push (.ofNat 72),
      .apply (.binary .add)] := by
  decide +kernel

end Formula
