import Formula.Proofs.Program.Transparency

/-!
# Programs over names

A compiled program is that of a tree over the names of the table that the compilation leaves
(`over_of_compile`), whether or not constants were folded. So each of its loads takes a name from
the slot of that name (`Over.load`), and slots and names can stand for each other.
-/

namespace Formula

/-- The names that are loaded are the names of the loads. -/
theorem Program.loadedNames_eq (p : Program) :
    p.loadedNames = (p.loads.map Prod.snd).eraseDups := by
  rw [loadedNames, loads, List.map_filterMap]
  congr 2
  funext i
  cases i <;> rfl

theorem Program.mem_loadedNames {p : Program} {name : String} :
    name ∈ p.loadedNames ↔ ∃ slot, (slot, name) ∈ p.loads := by
  simp [loadedNames_eq]

theorem Program.mem_loads {p : Program} {slot : Nat} {name : String} :
    (slot, name) ∈ p.loads ↔ .load slot name ∈ p := by
  rw [loads, List.mem_filterMap]
  constructor
  · rintro ⟨i, hi, hload⟩
    cases i <;> cases hload
    exact hi
  · intro h
    exact ⟨_, h, rfl⟩

/-! ## Names in a text -/

/-- **The names of a phrase stand in its tree in the same order.** -/
theorem Phrase.filterMap_name? {k : Category} {ts : List Token} {t : Tree} (h : Phrase k ts t) :
    ts.filterMap Token.name? = t.names := by
  induction h with
  | ofTerm _ ih | ofPower _ ih | ofPrefixed _ ih | ofSuffixed _ ih | ofAtom _ ih => exact ih
  | sum _ _ _ ihl ihr | product _ _ _ ihl ihr | raise _ _ ihl ihr =>
    rw [List.filterMap_append, ihl]
    exact congrArg (_ ++ ·) ihr
  | sign _ _ ih => exact ih
  | factorial _ ih =>
    rw [List.filterMap_append, ih]
    exact List.append_nil _
  | number v => rfl
  | name word => rfl
  | bracket _ ih =>
    rw [List.filterMap_append]
    exact (List.append_nil _).trans ih

/-- The tokens that are read in a text. -/
def tokensOf (text : String) : List Token := (Tokens.ofText text).list.map Located.token

/-- The tokens of a formula spell it and have its tree. -/
theorem IsReading.tokensOf {text : String} {t : Tree} (h : IsReading text t) :
    Splits text.toList (tokensOf text) ∧ Phrase .expr (tokensOf text) t := by
  obtain ⟨ts, hsplits, ht⟩ := h
  obtain ⟨hlist, -⟩ := Tokens.read_splits hsplits ht.through 0
  rw [show Formula.tokensOf text = ts from hlist]
  exact ⟨hsplits, ht⟩

/-- The names that are read in a text are those of its tree. -/
theorem IsReading.filterMap_name?_tokens {text : String} {t : Tree} (h : IsReading text t) :
    (Tokens.ofText text).list.filterMap (fun l => l.token.name?) = t.names := by
  rw [← h.tokensOf.2.filterMap_name?, Formula.tokensOf, List.filterMap_map]
  rfl

/-- A function is not read as a name. -/
theorem Splits.symbol_not_mem {cs : List Char} {ts : List Token} (h : Splits cs ts)
    (f : NamedFunction) : f.symbol ∉ ts.filterMap Token.name? := by
  induction h with
  | nil _ => exact List.not_mem_nil
  | cons _ hword _ _ ih =>
    cases hword with
    | name _ _ hf => exact List.not_mem_cons_of_ne_of_not_mem (hf f) ih
    | number _ _ | call _ | plus | minus | factorial | binary _ | openBracket | closeBracket =>
      exact ih

/-! ## Programs over names -/

/-- The program is that of a tree whose names are all known, each at the slot that is its place. -/
def Program.Over (p : Program) (names : List String) : Prop :=
  ∃ t : Tree, p = t.program names.idxOf ∧ ∀ word ∈ t.names, word ∈ names

namespace Program

variable {p : Program} {names : List String}

/-- **Each load takes one of the names from its slot.** -/
theorem Over.load (h : p.Over names) {slot : Nat} {name : String} (hl : (slot, name) ∈ p.loads) :
    name ∈ names ∧ slot = names.idxOf name := by
  obtain ⟨t, rfl, hnames⟩ := h
  rw [t.loads_program] at hl
  obtain ⟨word, hword, heq⟩ := List.mem_map.mp hl
  obtain ⟨rfl, rfl⟩ := Prod.mk.inj heq
  exact ⟨hnames word hword, rfl⟩

/-- A slot tells its name. -/
theorem Over.name_unique (h : p.Over names) {slot : Nat} {name other : String}
    (hname : (slot, name) ∈ p.loads) (hother : (slot, other) ∈ p.loads) : name = other := by
  obtain ⟨hmem, hslot⟩ := h.load hname
  obtain ⟨-, hslot'⟩ := h.load hother
  exact (List.idxOf_inj hmem).mp (hslot.symm.trans hslot')

end Program

/-- **A compiled program is one over the names of its table**, with and without folding. -/
theorem over_of_compile {F : Folding} {text : String} {table : Table} {p : Program}
    (h : (compile F text table).program = .ok p) :
    p.Over (compile F text table).table.names := by
  obtain ⟨t, ht⟩ := exists_isReading_of_compile table h
  rw [program_compile_of_isReading table F ht] at h
  rw [table_compile_of_isReading table F ht]
  refine ⟨F.tree t, (Except.ok.inj h).symm, ?_⟩
  intro word hword
  rw [F.names_tree] at hword
  exact table.mem_names_registerAll hword

end Formula
