import Formula.Proofs.Program.Emission

/-!
# Folding on trees

Folding looks at the end of the program that has been built, not at a tree. It computes the same as
if the tree were folded first and then compiled (`foldl_put_postorder`), for two reasons:

- a program that ends in a constant is that constant alone, since anything larger ends in an
  operator, and a name ends in its load;
- so the constants at the end are the operands of the operator that is emitted next.

Without folding, the same statement says that the program is that of the tree itself.
-/

namespace Formula

namespace Folding

variable (F : Folding)

/-! ## Folded trees -/

/-- A tree under a unary operator, computed if it can be. A positive sign leaves no node. -/
def unary : UnaryOp → Tree → Tree
  | .plus, t => t
  | u, .number x => if F.enabled then .number (F.kernels.unary u x) else .unary u (.number x)
  | u, t => .unary u t

/-- Two trees under a binary operator, computed if they can be. -/
def binary : BinaryOp → Tree → Tree → Tree
  | b, .number x, .number y =>
    if F.enabled then .number (F.kernels.binary b x y) else .binary b (.number x) (.number y)
  | b, l, r => .binary b l r

/-- The tree of which the program is built. -/
def tree : Tree → Tree
  | .number v => .number v
  | .name word => .name word
  | .unary u t => F.unary u (tree t)
  | .binary b l r => F.binary b (tree l) (tree r)

end Folding

/-- No positive sign is at the top. -/
def Tree.Plain (t : Tree) : Prop := ∀ u, t ≠ .unary .plus u

/-- **Only a constant ends in a constant.** -/
theorem Tree.Plain.last_program {t : Tree} (ht : t.Plain) (slot : String → Nat) :
    (∃ v, t = .number v) ∨
      (∀ v, t ≠ .number v) ∧ ∃ i rest, (t.program slot).reverse = i :: rest ∧ ∀ v, i ≠ .push v := by
  cases t with
  | number v => exact .inl ⟨v, rfl⟩
  | name word => exact .inr ⟨nofun, _, [], rfl, nofun⟩
  | unary u t =>
    cases u with
    | plus => exact absurd rfl (ht t)
    | minus | factorial | call f =>
      exact .inr ⟨nofun, _, _, List.reverse_concat, nofun⟩
  | binary b l r => exact .inr ⟨nofun, _, _, List.reverse_concat, nofun⟩

namespace Folding

variable (F : Folding)

theorem unary_number {u : UnaryOp} (hu : u ≠ .plus) (x : Double) :
    F.unary u (.number x)
      = if F.enabled then .number (F.kernels.unary u x) else .unary u (.number x) := by
  cases u with
  | plus => exact absurd rfl hu
  | minus | factorial | call f => rfl

theorem unary_of_ne_number {u : UnaryOp} (hu : u ≠ .plus) {t : Tree} (ht : ∀ v, t ≠ .number v) :
    F.unary u t = .unary u t := by
  cases u <;> cases t <;> simp_all [unary]

theorem binary_of_ne_number {b : BinaryOp} {l r : Tree}
    (h : (∀ v, l ≠ .number v) ∨ ∀ v, r ≠ .number v) : F.binary b l r = .binary b l r := by
  cases l <;> cases r <;> simp_all [binary]

/-- What becomes of a unary node. -/
theorem unary_cases (u : UnaryOp) (t : Tree) :
    u = .plus ∧ F.unary u t = t ∨
      u ≠ .plus ∧ (F.unary u t = .unary u t ∨
        F.enabled = true ∧ ∃ x, t = .number x ∧ F.unary u t = .number (F.kernels.unary u x)) := by
  by_cases hu : u = .plus
  · rw [hu]
    exact .inl ⟨rfl, rfl⟩
  · refine .inr ⟨hu, ?_⟩
    cases t with
    | number x =>
      rw [F.unary_number hu]
      cases F.enabled with
      | true => exact .inr ⟨rfl, x, rfl, rfl⟩
      | false => exact .inl rfl
    | name | unary | binary => exact .inl (F.unary_of_ne_number hu nofun)

/-- What becomes of a binary node. -/
theorem binary_cases (b : BinaryOp) (l r : Tree) :
    F.binary b l r = .binary b l r ∨
      F.enabled = true ∧ ∃ x y, l = .number x ∧ r = .number y ∧
        F.binary b l r = .number (F.kernels.binary b x y) := by
  unfold binary
  split
  · next x y =>
    cases F.enabled with
    | true => exact .inr ⟨rfl, x, y, rfl, rfl, rfl⟩
    | false => exact .inl rfl
  · exact .inl rfl

theorem plain_unary {t : Tree} (ht : t.Plain) (u : UnaryOp) : (F.unary u t).Plain := by
  rcases F.unary_cases u t with ⟨-, h⟩ | ⟨hu, h | ⟨-, x, -, h⟩⟩
  · rw [h]
    exact ht
  · rw [h]
    intro v hv
    cases hv
    exact hu rfl
  · rw [h]
    exact nofun

theorem plain_binary (b : BinaryOp) (l r : Tree) : (F.binary b l r).Plain := by
  rcases F.binary_cases b l r with h | ⟨-, x, y, -, -, h⟩
  · rw [h]
    exact nofun
  · rw [h]
    exact nofun

theorem plain_tree (t : Tree) : (F.tree t).Plain := by
  induction t with
  | number v => exact nofun
  | name word => exact nofun
  | unary u t ih => exact F.plain_unary ih u
  | binary b l r => exact F.plain_binary b _ _

/-! ## Emitting is folding -/

/-- An operator whose last operand is not a constant is appended. -/
theorem emit_of_last {i : Instr} (hi : ∀ v, i ≠ .push v) {o : Op} (ho : o ≠ .unary .plus)
    (rest : List Instr) : F.emit o (i :: rest) = .apply o :: i :: rest := by
  rcases o with (_ | _ | _ | f) | b <;> cases i <;> simp_all [emit]

/-- A binary operator whose first operand is not a constant is appended. -/
theorem emit_of_second {i : Instr} (hi : ∀ v, i ≠ .push v) (b : BinaryOp) (y : Double)
    (rest : List Instr) :
    F.emit (.binary b) (.push y :: i :: rest) = .apply (.binary b) :: .push y :: i :: rest := by
  cases i <;> simp_all [emit]

theorem emit_unary {t : Tree} (ht : t.Plain) (slot : String → Nat) (u : UnaryOp)
    (output : List Instr) :
    F.emit (.unary u) ((t.program slot).reverse ++ output)
      = ((F.unary u t).program slot).reverse ++ output := by
  by_cases hu : u = .plus
  · rw [hu]
    rfl
  · rcases ht.last_program slot with ⟨x, rfl⟩ | ⟨hne, i, rest, hlast, hi⟩
    · cases h : F.enabled <;> cases u <;> simp_all [emit, unary, Tree.program]
    · rw [F.unary_of_ne_number hu hne, Tree.program_unary hu, List.reverse_concat, hlast]
      exact F.emit_of_last hi (by simpa using hu) (rest ++ output)

theorem emit_binary {l r : Tree} (hl : l.Plain) (hr : r.Plain) (slot : String → Nat) (b : BinaryOp)
    (output : List Instr) :
    F.emit (.binary b) ((r.program slot).reverse ++ ((l.program slot).reverse ++ output))
      = ((F.binary b l r).program slot).reverse ++ output := by
  have happend : ((Tree.binary b l r).program slot).reverse ++ output = .apply (.binary b) ::
      ((r.program slot).reverse ++ ((l.program slot).reverse ++ output)) := by
    simp [Tree.program]
  rcases hr.last_program slot with ⟨y, rfl⟩ | ⟨hne, i, rest, hlast, hi⟩
  · rcases hl.last_program slot with ⟨x, rfl⟩ | ⟨hne, i, rest, hlast, hi⟩
    · cases h : F.enabled <;> simp [emit, binary, h, Tree.program]
    · rw [F.binary_of_ne_number (.inl hne), happend, hlast]
      exact F.emit_of_second hi b y (rest ++ output)
  · rw [F.binary_of_ne_number (.inr hne), happend, hlast]
    refine F.emit_of_last hi ?_ (rest ++ ((l.program slot).reverse ++ output))
    exact nofun

/-! ## Building is compiling the folded tree -/

/-- **A tree is built as the program of the folded tree.** Each name has the slot that it has in
the table with all names of the tree. -/
theorem foldl_put_postorder (t : Tree) (slot : String → Nat) (d : Draft)
    (hslot : ∀ word ∈ t.names, slot word = (d.table.registerAll t.names).names.idxOf word) :
    t.postorder.foldl F.put d
      = ⟨((F.tree t).program slot).reverse ++ d.output, d.table.registerAll t.names⟩ := by
  induction t generalizing d with
  | number v => rfl
  | name word =>
    have hword : slot word = d.table.names.idxOf word :=
      (hslot word List.mem_cons_self).trans (Table.idxOf_names_register d.table word)
    show Draft.mk (.load (d.table.names.idxOf word) word :: d.output) (d.table.register word) = _
    rw [← hword]
    rfl
  | unary u t ih =>
    rw [Tree.postorder, List.foldl_append, ih d hslot, tree,
      ← F.emit_unary (F.plain_tree t) slot u d.output]
    rfl
  | binary b l r ihl ihr =>
    -- names on the left keep their slots when those on the right come in
    have hl : ∀ word ∈ l.names, slot word = (d.table.registerAll l.names).names.idxOf word := by
      intro word hw
      rw [hslot word (List.mem_append_left _ hw), Tree.names, Table.registerAll_append,
        Table.idxOf_names_registerAll _ (Table.mem_names_registerAll _ hw)]
    have hr : ∀ word ∈ r.names,
        slot word = ((d.table.registerAll l.names).registerAll r.names).names.idxOf word := by
      intro word hw
      rw [hslot word (List.mem_append_right _ hw), Tree.names, Table.registerAll_append]
    rw [Tree.postorder, List.foldl_append, List.foldl_append, ihl d hl,
      ihr ⟨((F.tree l).program slot).reverse ++ d.output, d.table.registerAll l.names⟩ hr, tree,
      ← F.emit_binary (F.plain_tree l) (F.plain_tree r) slot b d.output, Tree.names,
      Table.registerAll_append]
    rfl

/-- Without folding, only the positive signs are gone, which leave no instruction anyway. -/
theorem program_tree_of_not_enabled {F : Folding} (hF : F.enabled = false) (t : Tree)
    (slot : String → Nat) : (F.tree t).program slot = t.program slot := by
  induction t with
  | number v => rfl
  | name word => rfl
  | unary u t ih =>
    rcases F.unary_cases u (F.tree t) with ⟨rfl, h⟩ | ⟨hu, h | ⟨he, -⟩⟩
    · rw [tree, h]
      exact ih
    · rw [tree, h, Tree.program_unary hu, Tree.program_unary hu, ih]
    · rw [hF] at he
      cases he
  | binary b l r ihl ihr =>
    rcases F.binary_cases b (F.tree l) (F.tree r) with h | ⟨he, -⟩
    · rw [tree, h, Tree.program, ihl, ihr]
      rfl
    · rw [hF] at he
      cases he

end Folding

end Formula
