import Formula.Proofs.Lookup
import Formula.Proofs.Program.Names
import Formula.Proofs.Tensor.Broadcast

/-!
# Running over columns

Over columns a formula is evaluated in the shapes that its parts happen to have. The result is the
same as if all columns of its names were stretched to their joint shape first and the formula
evaluated once for each index: the shape is the joint shape (`evalIn_elementwise`,
`evalBatch_compile`), and the element at an index is the value on the numbers that the columns have
there.

The induction along the tree tells an element at the indices of any larger shape, since the other
operand of an operator may be larger.
-/

namespace Formula

/-! ## The columns of a program -/

/-- The shapes of the columns for some slots. -/
def columnShapes (columns : List (Nat × Tensor Double)) (slots : List Nat) : List (List Nat) :=
  slots.filterMap fun slot => (lastGiven columns slot).map Tensor.shape

/-- The shapes of the columns that a program loads. -/
def Program.columnShapes (p : Program) (columns : List (Nat × Tensor Double)) : List (List Nat) :=
  Formula.columnShapes columns (p.loads.map Prod.fst)

/-- The values at an index: those of the columns, where there are columns. -/
def valuesAt (columns : List (Nat × Tensor Double)) (values : List Double) (ix : List Nat) :
    List Double :=
  values.mapIdx fun slot v =>
    match lastGiven columns slot with
    | some column => column.read ix
    | none => v

variable {columns : List (Nat × Tensor Double)} {values : List Double}

theorem mem_of_lastGiven {α : Type} {given : List (Nat × α)} {slot : Nat} {x : α}
    (h : lastGiven given slot = some x) : (slot, x) ∈ given :=
  List.mem_reverse.mp (mem_of_lookup_eq_some h)

theorem columnShapes_append (slots slots' : List Nat) :
    columnShapes columns (slots ++ slots')
      = columnShapes columns slots ++ columnShapes columns slots' := List.filterMap_append

theorem Tree.columnShapes_program (t : Tree) (slot : String → Nat) :
    Program.columnShapes (t.program slot) columns = columnShapes columns (t.names.map slot) := by
  rw [Program.columnShapes, t.loads_program, List.map_map]
  rfl

/-- What a slot holds in a run over columns, and what it holds at an index. -/
theorem loaded_slotsWith {slot : Nat} (h : slot < values.length) :
    ∃ a, loaded (slotsWith columns values) slot = .ok a ∧
      Tensor.IsJoint (columnShapes columns [slot]) a.shape ∧
      ∀ ix, a.read ix = (valuesAt columns values ix).getD slot .nan := by
  cases hc : lastGiven columns slot with
  | some column =>
    refine ⟨column, by simp [loaded, slotsWith, hc], ?_, ?_⟩
    · simp [columnShapes, hc, Tensor.IsJoint.singleton]
    · intro ix
      simp [valuesAt, List.getD_eq_getElem?_getD, h, hc]
  | none =>
    refine ⟨.scalar values[slot], by simp [loaded, slotsWith, hc, h], ?_, ?_⟩
    · have hshapes : columnShapes columns [slot] = [] := by simp [columnShapes, hc]
      rw [hshapes]
      exact .nil
    · intro ix
      simp [valuesAt, List.getD_eq_getElem?_getD, h, hc]

/-! ## Trees over columns -/

/-- Each operator of a program does the same whether or not its right operand varies. -/
def Kernels.UniformOn (K : Kernels) (p : Program) : Prop :=
  ∀ b, .apply (.binary b) ∈ p → K.binaryVarying b = K.binary b

/-- The value of a tree with a reading of its operators. -/
def Tree.evalBy (unary : UnaryOp → Double → Double) (binary : BinaryOp → Double → Double → Double)
    (value : String → Double) : Tree → Double
  | .number v => v
  | .name word => value word
  | .unary .plus t => t.evalBy unary binary value
  | .unary u t => unary u (t.evalBy unary binary value)
  | .binary b l r => binary b (l.evalBy unary binary value) (r.evalBy unary binary value)

theorem Tree.evalBy_unary (unary : UnaryOp → Double → Double)
    (binary : BinaryOp → Double → Double → Double) (value : String → Double) {u : UnaryOp}
    (hu : u ≠ .plus) (t : Tree) :
    (Tree.unary u t).evalBy unary binary value = unary u (t.evalBy unary binary value) := by
  cases u with
  | plus => exact absurd rfl hu
  | minus | factorial | call f => rfl

/-- The kernels are such a reading. -/
theorem Tree.evalBy_kernels (K : Kernels) (value : String → Double) (t : Tree) :
    t.evalBy K.unary K.binary value = t.eval K value := by
  induction t with
  | number v => rfl
  | name word => rfl
  | unary u t ih =>
    by_cases hu : u = .plus
    · rw [hu]
      exact ih
    · rw [evalBy_unary _ _ _ hu, eval_unary, ih]
  | binary b l r ihl ihr => rw [evalBy, eval, ihl, ihr]

/--
**A tree over columns has the joint shape of the columns of its names, and at each index its value
there**, however unary operators are read.
-/
theorem Tree.evalIn_elementwise (K : Kernels) (unary : UnaryOp → Double → Double)
    (slot : String → Nat) (t : Tree) (hvalues : ∀ word ∈ t.names, slot word < values.length)
    {k : List Nat}
    (hk : ∀ s ∈ columnShapes columns (t.names.map slot), Tensor.StretchesTo s k) :
    ∃ a, (t.evalIn (K.elementwise unary) fun word =>
        loaded (slotsWith columns values) (slot word)) = .ok a ∧
      Tensor.IsJoint (columnShapes columns (t.names.map slot)) a.shape ∧
      (K.UniformOn (t.program slot) →
        ∀ s, Tensor.StretchesTo a.shape s → ∀ ix ∈ Tensor.indices s,
          a.read ix = t.evalBy unary K.binary fun word =>
            (valuesAt columns values ix).getD (slot word) .nan) := by
  induction t with
  | number v => exact ⟨.scalar v, rfl, .nil, fun _ _ _ _ _ => rfl⟩
  | name word =>
    obtain ⟨a, ha, hshape, hread⟩ := loaded_slotsWith (hvalues word List.mem_cons_self)
    exact ⟨a, ha, hshape, fun _ _ _ ix _ => hread ix⟩
  | unary u t ih =>
    obtain ⟨a, ha, hshape, hread⟩ := ih hvalues hk
    by_cases hu : u = .plus
    · rw [hu]
      exact ⟨a, ha, hshape, hread⟩
    · refine ⟨a.map (unary u), ?_, hshape, ?_⟩
      · rw [evalIn_unary _ _ hu, ha]
        rfl
      · intro hK s hs ix hix
        have has : Tensor.StretchesTo a.shape s := hs
        have hKt : K.UniformOn (t.program slot) :=
          fun b hb => hK b (by simp [program_unary hu, hb])
        rw [Tensor.read_map _ has hix, hread hKt s has ix hix, evalBy_unary _ _ _ hu]
  | binary b l r ihl ihr =>
    have hsplit : columnShapes columns ((Tree.binary b l r).names.map slot)
        = columnShapes columns (l.names.map slot) ++ columnShapes columns (r.names.map slot) := by
      rw [names, List.map_append, columnShapes_append]
    rw [hsplit] at hk ⊢
    have hkl : ∀ s ∈ columnShapes columns (l.names.map slot), Tensor.StretchesTo s k :=
      fun s hs => hk s (List.mem_append_left _ hs)
    have hkr : ∀ s ∈ columnShapes columns (r.names.map slot), Tensor.StretchesTo s k :=
      fun s hs => hk s (List.mem_append_right _ hs)
    obtain ⟨x, hx, hxshape, hxread⟩ :=
      ihl (fun word hw => hvalues word (List.mem_append_left _ hw)) hkl
    obtain ⟨y, hy, hyshape, hyread⟩ :=
      ihr (fun word hw => hvalues word (List.mem_append_right _ hw)) hkr
    -- either kernel will do: the shape depends on the shapes alone
    obtain ⟨z, hz, hzshape, hzread⟩ := Tensor.exists_zipWith
      (if Tensor.varies x.shape y.shape then K.binaryVarying b else K.binary b)
      (hxshape.least k hkl) (hyshape.least k hkr)
    refine ⟨z, ?_, hxshape.append hyshape hzshape, ?_⟩
    · rw [evalIn, hx, hy]
      exact hz
    · intro hK s hs ix hix
      have hKl : K.UniformOn (l.program slot) := fun c hc => hK c (by simp [program, hc])
      have hKr : K.UniformOn (r.program slot) := fun c hc => hK c (by simp [program, hc])
      have hKb : K.binaryVarying b = K.binary b := hK b (by simp [program])
      have hxs : Tensor.StretchesTo x.shape s := (hzshape.stretches _ (by simp)).trans hs
      have hys : Tensor.StretchesTo y.shape s := (hzshape.stretches _ (by simp)).trans hs
      rw [hzread s hs ix hix, hxread hKl s hxs ix hix, hyread hKr s hys ix hix, hKb, ite_self]
      rfl

/-- On columns of values, the reading is that of the kernels. -/
theorem Tree.evalIn_batch (K : Kernels) (slot : String → Nat) (t : Tree)
    (hvalues : ∀ word ∈ t.names, slot word < values.length) {k : List Nat}
    (hk : ∀ s ∈ columnShapes columns (t.names.map slot), Tensor.StretchesTo s k) :
    ∃ a, (t.evalIn K.batch fun word => loaded (slotsWith columns values) (slot word)) = .ok a ∧
      Tensor.IsJoint (columnShapes columns (t.names.map slot)) a.shape ∧
      (K.UniformOn (t.program slot) →
        ∀ s, Tensor.StretchesTo a.shape s → ∀ ix ∈ Tensor.indices s,
          a.read ix
            = t.eval K fun word => (valuesAt columns values ix).getD (slot word) .nan) := by
  obtain ⟨a, ha, hshape, hread⟩ := t.evalIn_elementwise K K.unaryOnElement slot hvalues hk
  refine ⟨a, ha, hshape, fun hK s hs ix hix => ?_⟩
  rw [hread hK s hs ix hix, funext K.unaryOnElement_eq, evalBy_kernels]

/-- The slots that are loaded are those of the names. -/
theorem Tree.slot_lt_of_loads {t : Tree} {slot : String → Nat} {count : Nat}
    (h : ∀ l ∈ Program.loads (t.program slot), l.1 < count) :
    ∀ word ∈ t.names, slot word < count := by
  intro word hword
  refine h (slot word, word) ?_
  rw [t.loads_program]
  exact List.mem_map.mpr ⟨word, hword, rfl⟩

/--
**A program over names is one function of the values at an index**, whatever the columns are and
however unary operators are read.
-/
theorem Program.Over.eval_elementwise {p : Program} {names : List String} (h : p.Over names)
    (K : Kernels) (unary : UnaryOp → Double → Double) :
    ∃ value : List Double → Double, ∀ values columns, (∀ l ∈ p.loads, l.1 < values.length) →
      Tensor.Compatible (p.columnShapes columns) →
      ∃ a, (K.elementwise unary).eval (slotsWith columns values) p = .ok a ∧
        Tensor.IsJoint (p.columnShapes columns) a.shape ∧
        (K.UniformOn p → ∀ s, Tensor.StretchesTo a.shape s → ∀ ix ∈ Tensor.indices s,
          a.read ix = value (valuesAt columns values ix)) := by
  obtain ⟨t, rfl, -⟩ := h
  refine ⟨fun values => t.evalBy unary K.binary fun word => values.getD (names.idxOf word) .nan,
    fun values columns hvalues hcolumns => ?_⟩
  rw [t.columnShapes_program] at hcolumns ⊢
  obtain ⟨k, hk⟩ := hcolumns
  obtain ⟨a, ha, hshape, hread⟩ :=
    t.evalIn_elementwise K unary names.idxOf (Tree.slot_lt_of_loads hvalues) hk
  refine ⟨a, ?_, hshape, hread⟩
  rw [Arithmetic.eval, Arithmetic.result_run_program, ha]

/-- **A program over names is run over columns that stretch to a common shape.** -/
theorem Program.Over.evalBatch {p : Program} {names : List String} (h : p.Over names) (K : Kernels)
    (hvalues : ∀ l ∈ p.loads, l.1 < values.length)
    (hcolumns : Tensor.Compatible (p.columnShapes columns)) :
    ∃ a, p.evalBatch K values columns = .ok a ∧ Tensor.IsJoint (p.columnShapes columns) a.shape ∧
      (K.UniformOn p → ∀ ix ∈ Tensor.indices a.shape, ∀ stack,
        K.scalar.run (slotsOf (valuesAt columns values ix)) p stack
          = ⟨.ok (a.get ix), stack⟩) := by
  obtain ⟨t, rfl, -⟩ := h
  have hslots := Tree.slot_lt_of_loads hvalues
  rw [t.columnShapes_program] at hcolumns ⊢
  obtain ⟨k, hk⟩ := hcolumns
  obtain ⟨a, ha, hshape, hread⟩ := t.evalIn_batch K names.idxOf hslots hk
  refine ⟨a, ?_, hshape, ?_⟩
  · rw [Program.evalBatch, Arithmetic.eval, Arithmetic.result_run_program, ha]
  · intro hK ix hix stack
    have hvalue : (t.evalIn K.scalar fun word =>
        loaded (slotsOf (valuesAt columns values ix)) (names.idxOf word)) = .ok (a.get ix) := by
      rw [← Tensor.read_self hix, hread hK _ (.refl _) ix hix]
      refine t.evalIn_scalar K fun word hword => ?_
      simp [loaded, slotsOf, List.getD_eq_getElem?_getD, valuesAt, hslots word hword]
    exact K.scalar.run_program_of_ok _ _ hvalue stack

/--
**A formula over columns is the formula at each index.**

The columns that the program loads must stretch to a common shape. Then there is an array of their
joint shape, and its element at each index is what a run yields on the values at that index. Other
columns have no influence. Kernels may take shortcuts only for operators that do not occur.
-/
theorem evalBatch_compile (F : Folding) {K : Kernels} (text : String) (table : Table) {p : Program}
    (h : (compile F text table).program = .ok p) (hK : K.UniformOn p)
    (values : List Double) (hvalues : ∀ l ∈ p.loads, l.1 < values.length)
    (columns : List (Nat × Tensor Double)) (hcolumns : Tensor.Compatible (p.columnShapes columns)) :
    ∃ a, p.evalBatch K values columns = .ok a ∧ Tensor.IsJoint (p.columnShapes columns) a.shape ∧
      ∀ ix ∈ Tensor.indices a.shape, ∀ stack,
        K.scalar.run (slotsOf (valuesAt columns values ix)) p stack
          = ⟨.ok (a.get ix), stack⟩ := by
  obtain ⟨a, ha, hshape, hread⟩ := (over_of_compile h).evalBatch K hvalues hcolumns
  exact ⟨a, ha, hshape, hread hK⟩

/-- A column and a row; the column of a constant that the formula does not mention is left alone. -/
theorem evalBatch_compile_column_and_row :
    ∃ p, (compile ⟨.standard, true⟩ "x*y! - 2*4*z" .withConstants).program = .ok p ∧
      ∃ a, p.evalBatch .standard (Table.withConstants.values ++ [.nan, .nan, .ofNat 5])
          [(7, ⟨[2, 1], #[.ofNat 3, .infinity], rfl⟩), (0, ⟨[0], #[], rfl⟩),
            (8, ⟨[3], #[.zero, .nan, .ofNat 4], rfl⟩)] = .ok a ∧
        Tensor.IsJoint [[2, 1], [3]] a.shape ∧
        ∀ ix ∈ Tensor.indices a.shape, ∀ stack,
          Kernels.standard.scalar.run
              (slotsOf (valuesAt [(7, ⟨[2, 1], #[.ofNat 3, .infinity], rfl⟩), (0, ⟨[0], #[], rfl⟩),
                (8, ⟨[3], #[.zero, .nan, .ofNat 4], rfl⟩)]
              (Table.withConstants.values ++ [.nan, .nan, .ofNat 5]) ix)) p stack
            = ⟨.ok (a.get ix), stack⟩ := by
  have h : (compile ⟨.standard, true⟩ "x*y! - 2*4*z" .withConstants).program
      = .ok [.load 7 "x", .load 8 "y", .apply (.unary .factorial), .apply (.binary .multiply),
        .push (.ofNat 8), .load 9 "z", .apply (.binary .multiply),
        .apply (.binary .subtract)] := by
    decide +kernel
  refine ⟨_, h, evalBatch_compile ⟨.standard, true⟩ _ .withConstants h ?_ _ ?_ _ ?_⟩
  · intro b hb
    cases b with
    | power => simp at hb
    | add | subtract | multiply | divide => rfl
  · decide
  · exact ⟨[2, 3], by decide⟩

end Formula
