import Formula.Proofs.Grammar.Bracketed
import Formula.Proofs.Program.Depth
import Formula.Proofs.Program.Names

/-!
# Which programs there are

A program in which every operator finds its operands is the postorder of a tree
(`exists_eq_program`), and a tree can be written down with all brackets. So what can be compiled
without folding can be told from the instructions alone (`program_compile_unfolded_iff`): the counts
must come out even, each instruction must have a token that can stand in a text, and each name must
be loaded from the slot that it is registered at.
-/

namespace Formula

/-! ## Instructions as tokens -/

/-- The token that an instruction comes from. -/
def Instr.token : Instr → Token
  | .push v => .number v
  | .load _ name => .name name
  | .apply o => .op o

namespace Tree

/-- **A program has the tokens of its tree in postorder**, without the positive signs. -/
theorem map_token_program (slot : String → Nat) (t : Tree) :
    (t.program slot).map Instr.token = t.postorder.filter (· ≠ .op (.unary .plus)) := by
  induction t with
  | number v | name word => rfl
  | unary u t ih =>
    by_cases hu : u = .plus
    · rw [hu, program, ih, postorder, List.filter_append]
      exact (List.append_nil _).symm
    · rw [program_unary hu, List.map_append, ih, postorder, List.filter_append,
        List.filter_cons_of_pos (by simpa using hu)]
      rfl
  | binary b l r ihl ihr =>
    rw [program, List.map_append, List.map_append, ihl, ihr, postorder, List.filter_append,
      List.filter_append]
    rfl

/-- The program of a tree puts one value on the stack. -/
theorem depth?_program (slot : String → Nat) (t : Tree) (n : Nat) :
    (t.program slot).depth? n = some (n + 1) := by
  induction t generalizing n with
  | number v | name word => rfl
  | unary u t ih =>
    by_cases hu : u = .plus
    · rw [hu]
      exact ih n
    · rw [program_unary hu, Program.depth?_append, ih]
      exact Program.depth?_cons_eq_some_iff.mpr ⟨Nat.le_add_left 1 n, rfl⟩
  | binary b l r ihl ihr =>
    rw [program, Program.depth?_append, Program.depth?_append, ihl, Option.bind_some, ihr]
    exact Program.depth?_cons_eq_some_iff.mpr ⟨Nat.le_add_left 2 n, rfl⟩

/-! ## Trees from programs -/

/-- The programs of a row of trees, the latest tree first. -/
def programs (slot : String → Nat) (trees : List Tree) : Program :=
  trees.reverse.flatMap (program slot)

theorem programs_cons (slot : String → Nat) (t : Tree) (trees : List Tree) :
    programs slot (t :: trees) = programs slot trees ++ t.program slot := by
  rw [programs, List.reverse_cons, List.flatMap_append]
  exact congrArg _ (List.append_nil _)

/-- An instruction that finds its operands makes one tree of theirs. -/
theorem programs_grow {slot : String → Nat} {i : Instr} {trees : List Tree}
    (hpops : i.pops ≤ trees.length) (hplus : i ≠ .apply (.unary .plus))
    (hslot : ∀ k name, i = .load k name → k = slot name) :
    (grow trees i.token).length = trees.length - i.pops + 1 ∧
      programs slot (grow trees i.token) = programs slot trees ++ [i] := by
  cases i with
  | push v => exact ⟨rfl, programs_cons slot _ trees⟩
  | load k name =>
    rw [hslot k name rfl]
    exact ⟨rfl, programs_cons slot _ trees⟩
  | apply o =>
    cases o with
    | unary u =>
      obtain ⟨t, trees, rfl⟩ := List.exists_cons_of_length_pos hpops
      have hu : u ≠ .plus := fun h => hplus (h ▸ rfl)
      refine ⟨rfl, ?_⟩
      show programs slot (.unary u t :: trees) = _
      rw [programs_cons, programs_cons, program_unary hu, List.append_assoc]
    | binary b =>
      rcases trees with _ | ⟨r, _ | ⟨l, trees⟩⟩
      · exact absurd hpops (by decide : ¬2 ≤ 0)
      · exact absurd hpops (by decide : ¬2 ≤ 1)
      · refine ⟨rfl, ?_⟩
        show programs slot (.binary b l r :: trees) = _
        rw [programs_cons, programs_cons, programs_cons, program]
        simp only [List.append_assoc]

/-- **A program that finds its operands puts trees together.** -/
theorem exists_programs_eq {slot : String → Nat} {p : Program} {trees : List Tree} {d : Nat}
    (hdepth : p.depth? trees.length = some d) (hplus : .apply (.unary .plus) ∉ p)
    (hslot : ∀ k name, .load k name ∈ p → k = slot name) :
    ∃ trees' : List Tree, trees'.length = d ∧ programs slot trees' = programs slot trees ++ p := by
  induction p generalizing trees with
  | nil =>
    cases hdepth
    exact ⟨trees, rfl, (List.append_nil _).symm⟩
  | cons i p ih =>
    obtain ⟨hpops, hdepth⟩ := Program.depth?_cons_eq_some_iff.mp hdepth
    obtain ⟨hlength, hprograms⟩ := programs_grow hpops (fun h => hplus (h ▸ List.mem_cons_self))
      fun k name h => hslot k name (h ▸ List.mem_cons_self)
    rw [← hlength] at hdepth
    obtain ⟨trees', hlength', hprograms'⟩ := ih hdepth
      (fun h => hplus (List.mem_cons_of_mem i h))
      fun k name h => hslot k name (List.mem_cons_of_mem i h)
    refine ⟨trees', hlength', ?_⟩
    rw [hprograms', hprograms, List.append_assoc]
    rfl

theorem exists_eq_program {slot : String → Nat} {p : Program} (hdepth : p.depth? 0 = some 1)
    (hplus : .apply (.unary .plus) ∉ p) (hslot : ∀ k name, .load k name ∈ p → k = slot name) :
    ∃ t : Tree, p = t.program slot := by
  have hempty : p.depth? ([] : List Tree).length = some 1 := hdepth
  obtain ⟨trees, hlength, hprograms⟩ := exists_programs_eq hempty hplus hslot
  obtain ⟨t, rfl⟩ := List.length_eq_one_iff.mp hlength
  rw [programs_cons] at hprograms
  exact ⟨t, hprograms.symm⟩

end Tree

/-! ## Well-formed programs -/

/-- What can be said of a compiled program without its text. -/
structure Program.WellFormed (p : Program) (table : Table) : Prop where
  /-- Each operator finds its operands, and one value is left. -/
  balanced : p.depth? 0 = some 1
  noPlus : .apply (.unary .plus) ∉ p
  /-- Constants are finite with a clear sign bit; names are letters and not those of functions. -/
  readable : ∀ i ∈ p, i.token.Readable
  /-- Slots are those of the table with the names of the program registered in order. -/
  slots : ∀ slot name, .load slot name ∈ p →
    (table.registerAll (p.loads.map Prod.snd)).slot? name = some slot

namespace Program

variable {p : Program} {table : Table}

theorem wellFormed_of_isReading {text : String} {t : Tree} (h : IsReading text t) (table : Table) :
    WellFormed (t.program (table.registerAll t.names).names.idxOf) table := by
  obtain ⟨ts, hsplits, hphrase⟩ := h
  have htokens := t.map_token_program (table.registerAll t.names).names.idxOf
  have hmem : ∀ i ∈ t.program (table.registerAll t.names).names.idxOf,
      i.token ∈ t.postorder ∧ i.token ≠ .op (.unary .plus) := by
    intro i hi
    have hi := List.mem_map_of_mem (f := Instr.token) hi
    rw [htokens, List.mem_filter] at hi
    exact ⟨hi.1, of_decide_eq_true hi.2⟩
  refine ⟨t.depth?_program _ 0, fun hplus => (hmem _ hplus).2 rfl, fun i hi => ?_, ?_⟩
  · exact hphrase.readable_iff.mp hsplits.readable _ (hmem i hi).1
  · intro slot name hload
    have hloads := mem_loads.mpr hload
    rw [t.loads_program] at hloads
    obtain ⟨word, hword, heq⟩ := List.mem_map.mp hloads
    cases heq
    rw [t.loads_program, List.map_map]
    show (table.registerAll (t.names.map id)).slot? name = _
    rw [List.map_id, Table.slot?_of_mem (table.mem_names_registerAll hword)]

/-- **A well-formed program is that of a tree that can be written down.** -/
theorem WellFormed.exists_tree (h : p.WellFormed table) :
    ∃ t : Tree, p = t.program (table.registerAll t.names).names.idxOf ∧
      ∀ x ∈ t.postorder, x.Readable := by
  have hslot : ∀ slot name, .load slot name ∈ p →
      slot = (table.registerAll (p.loads.map Prod.snd)).names.idxOf name := by
    intro slot name hload
    have hname : name ∈ p.loads.map Prod.snd :=
      List.mem_map.mpr ⟨(slot, name), mem_loads.mpr hload, rfl⟩
    have hslot := h.slots slot name hload
    rw [Table.slot?_of_mem (table.mem_names_registerAll hname)] at hslot
    exact (Option.some.inj hslot).symm
  obtain ⟨t, ht⟩ := Tree.exists_eq_program h.balanced h.noPlus hslot
  have hnames : p.loads.map Prod.snd = t.names := by
    rw [ht, t.loads_program, List.map_map]
    exact List.map_id _
  rw [hnames] at ht
  refine ⟨t, ht, fun x hx => ?_⟩
  by_cases hplus : x = .op (.unary .plus)
  · rw [hplus]
    trivial
  · have hx : x ∈ p.map Instr.token := by
      rw [ht, t.map_token_program]
      exact List.mem_filter.mpr ⟨hx, decide_eq_true hplus⟩
    obtain ⟨i, hi, rfl⟩ := List.mem_map.mp hx
    exact h.readable i hi

end Program

/-- A tree that can be written down is read from its tokens with all brackets. -/
theorem isReading_bracketed {t : Tree} (h : ∀ x ∈ t.postorder, x.Readable) :
    IsReading (Token.text t.bracketed) t :=
  have hphrase := Phrase.bracketed t
  ⟨t.bracketed, splits_text (hphrase.readable_iff.mpr h), .exprOfSuffixed (.ofAtom hphrase)⟩

/--
**The programs of formulas are the well-formed ones.**

Without folding, a text compiles to a program exactly if the program is well-formed: each operator
finds its operands and one value is left, there is no positive sign, the constants and names are
such as can be written, and each name is loaded from the slot that it has once the names of the
program have been registered in order. Then the formula with all brackets compiles to it.
-/
theorem program_compile_unfolded_iff (K : Kernels) (table : Table) (p : Program) :
    ((∃ text, (compile ⟨K, false⟩ text table).program = .ok p) ↔ p.WellFormed table) ∧
      (p.WellFormed table → ∃ t : Tree, p = t.program (table.registerAll t.names).names.idxOf ∧
        (compile ⟨K, false⟩ (Token.text t.bracketed) table).program = .ok p) := by
  have hwrite : p.WellFormed table → ∃ t : Tree,
      p = t.program (table.registerAll t.names).names.idxOf ∧
        (compile ⟨K, false⟩ (Token.text t.bracketed) table).program = .ok p := by
    intro h
    obtain ⟨t, ht, hreadable⟩ := h.exists_tree
    refine ⟨t, ht, ?_⟩
    rw [program_compile_unfolded table K (isReading_bracketed hreadable), ← ht]
  refine ⟨⟨?_, ?_⟩, hwrite⟩
  · rintro ⟨text, hp⟩
    obtain ⟨t, ht⟩ := exists_isReading_of_compile table hp
    rw [program_compile_unfolded table K ht] at hp
    cases hp
    exact Program.wellFormed_of_isReading ht table
  · intro h
    obtain ⟨t, -, ht⟩ := hwrite h
    exact ⟨_, ht⟩

/-- A function raised to a factorial, with all brackets. -/
example : Token.text (Tree.bracketed (.binary .power (.unary (.call .sin) (.name "x"))
    (.unary .factorial (.number (.ofBits 0x3fe0000000000000)))))
      = " ( ( sin x ) ^ ( 0.5 ! ) )" := by
  decide +kernel

end Formula
