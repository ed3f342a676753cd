import Formula.Table.Basic

/-!
# Registering names

The slot of a name is its place among the names of the table. A name that comes in takes the first
free place, and no name ever moves.
-/

namespace Formula.Table

/-- Registers names in order. -/
def registerAll (t : Table) (names : List String) : Table := names.foldl register t

theorem registerAll_append (t : Table) (ns ms : List String) :
    t.registerAll (ns ++ ms) = (t.registerAll ns).registerAll ms := List.foldl_append

theorem size_eq_length_names (t : Table) : t.size = t.names.length :=
  (List.length_map Prod.fst).symm

theorem names_register (t : Table) (name : String) :
    (t.register name).names = if name ∈ t.names then t.names else t.names ++ [name] := by
  split
  · next h => rw [register_of_mem h]
  · next h => exact names_register_of_not_mem h

theorem entries_register_of_not_mem {t : Table} {name : String} (h : name ∉ t.names) :
    (t.register name).entries = t.entries ++ [(name, .nan)] := by
  simp [register, show name ∉ t.entries.map Prod.fst from h]

theorem mem_names_register (t : Table) (name : String) : name ∈ (t.register name).names := by
  rw [names_register]
  split
  · assumption
  · simp

theorem mem_names_register_of_mem {t : Table} {name : String} (other : String)
    (h : name ∈ t.names) : name ∈ (t.register other).names := by
  rw [names_register]
  split
  · exact h
  · exact List.mem_append_left _ h

theorem mem_names_registerAll_of_mem {t : Table} {name : String} (names : List String)
    (h : name ∈ t.names) : name ∈ (t.registerAll names).names := by
  induction names generalizing t with
  | nil => exact h
  | cons n names ih => exact ih (mem_names_register_of_mem n h)

theorem mem_names_registerAll {name : String} {names : List String} (t : Table)
    (h : name ∈ names) : name ∈ (t.registerAll names).names := by
  induction names generalizing t with
  | nil => cases h
  | cons n names ih =>
    rcases List.mem_cons.mp h with rfl | h
    · exact mem_names_registerAll_of_mem names (mem_names_register t name)
    · exact ih (t.register n) h

/-! ## Slots -/

theorem idxOf_lt_size {t : Table} {name : String} (h : name ∈ t.names) :
    t.names.idxOf name < t.size := by
  rw [size_eq_length_names]
  exact List.idxOf_lt_length_of_mem h

/-- **A name keeps its slot.** -/
theorem idxOf_names_registerAll {t : Table} {name : String} (names : List String)
    (h : name ∈ t.names) : (t.registerAll names).names.idxOf name = t.names.idxOf name := by
  induction names generalizing t with
  | nil => rfl
  | cons n names ih =>
    have hstep : (t.register n).names.idxOf name = t.names.idxOf name := by
      rw [names_register]
      split
      · rfl
      · rw [List.idxOf_append, if_pos h]
    exact (ih (mem_names_register_of_mem n h)).trans hstep

/-- The slot of a known name is its place. -/
theorem slot?_of_mem {t : Table} {name : String} (h : name ∈ t.names) :
    t.slot? name = some (t.names.idxOf name) := by
  obtain ⟨i, hi⟩ := Option.isSome_iff_exists.mp (List.isSome_idxOf?.mpr h)
  have hplace : t.names.idxOf name = i := (List.findIdx?_eq_some_iff_findIdx_eq.mp hi).2
  rw [hplace]
  exact hi

theorem slot?_of_not_mem {t : Table} {name : String} (h : name ∉ t.names) :
    t.slot? name = none := List.idxOf?_eq_none_iff.mpr h

theorem slotFor_eq (t : Table) (name : String) :
    t.slotFor name = (t.names.idxOf name, t.register name) := by
  unfold slotFor
  by_cases h : name ∈ t.names
  · rw [slot?_of_mem h, register_of_mem h]
  · rw [slot?_of_not_mem h, List.idxOf_eq_length h, size_eq_length_names]

/-- The slot that a name is given is its place in the table from then on. -/
theorem idxOf_names_register (t : Table) (name : String) :
    (t.register name).names.idxOf name = t.names.idxOf name := by
  rw [names_register]
  split
  · rfl
  · next h => rw [List.idxOf_append, if_neg h, List.idxOf_eq_length h]; simp

/-! ## Names that come in -/

/-- The names that a table does not know, each at its first place. -/
def newNames (t : Table) (names : List String) : List String :=
  (names.filter fun n => !t.contains n).eraseDups

theorem contains_eq_decide (t : Table) (name : String) :
    t.contains name = decide (name ∈ t.names) :=
  List.contains_eq_mem name t.names

theorem newNames_cons_of_mem {t : Table} {name : String} (names : List String)
    (h : name ∈ t.names) : t.newNames (name :: names) = t.newNames names := by
  rw [newNames, List.filter_cons_of_neg (by simp [contains_eq_decide, h])]
  rfl

/-- Once a new name has come in, it is not new any more. -/
theorem newNames_cons_of_not_mem {t : Table} {name : String} (names : List String)
    (h : name ∉ t.names) :
    t.newNames (name :: names) = name :: (t.register name).newNames names := by
  have hrest : (names.filter fun n => !t.contains n).filter (fun n => !n == name)
      = names.filter fun n => !(t.register name).contains n := by
    rw [List.filter_filter]
    refine List.filter_congr fun n _ => ?_
    rw [contains_eq_decide, contains_eq_decide, names_register_of_not_mem h]
    by_cases hn : n = name <;> simp [hn]
  rw [newNames, List.filter_cons_of_pos (by simp [contains_eq_decide, h]), List.eraseDups_cons,
    hrest]
  rfl

/-- **Registering names appends those that are new, each once and with NaN.** -/
theorem entries_registerAll (t : Table) (names : List String) :
    (t.registerAll names).entries
      = t.entries ++ (t.newNames names).map fun n => (n, Double.nan) := by
  induction names generalizing t with
  | nil => exact (List.append_nil _).symm
  | cons name names ih =>
    show ((t.register name).registerAll names).entries = _
    rw [ih]
    by_cases h : name ∈ t.names
    · rw [register_of_mem h, newNames_cons_of_mem names h]
    · rw [entries_register_of_not_mem h, newNames_cons_of_not_mem names h, List.append_assoc]
      rfl

theorem names_registerAll (t : Table) (names : List String) :
    (t.registerAll names).names = t.names ++ t.newNames names := by
  rw [Table.names, entries_registerAll, List.map_append, List.map_map]
  exact congrArg (t.names ++ ·) (List.map_id _)

end Formula.Table
