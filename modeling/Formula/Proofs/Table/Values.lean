import Mathlib.Data.List.Basic
import Mathlib.Logic.Function.Basic
import Formula.Proofs.Lookup
import Formula.Proofs.Table.Register

/-!
# The values of names

A name has one value, whether it is looked up or read from its slot: a table is the list of its
names, each with its value (`entries_eq_graph`). So a table can be told as its names and a function
on names, and setting a name changes that function at the name (`valueOf_set`). A name that is not
known counts as NaN. Since a new name is NaN too, registering names changes no value
(`valueOf_registerAll`).
-/

namespace Formula.Table

variable {t : Table} {name : String}

/-- The value of a name, NaN if it is not known. -/
def valueOf (t : Table) (name : String) : Double := (t.lookup name).getD .nan

/-! ## Looking up -/

theorem lookup_of_not_mem (h : name ∉ t.names) : t.lookup name = none :=
  lookup_eq_none_of_not_mem h

theorem valueOf_of_not_mem (h : name ∉ t.names) : t.valueOf name = .nan := by
  rw [valueOf, lookup_of_not_mem h]
  rfl

/-- **A table is the list of its names, each with its value.** -/
theorem entries_eq_graph (t : Table) : t.entries = t.names.map fun n => (n, t.valueOf n) := by
  have hentry : ∀ e ∈ t.entries, (e.1, t.valueOf e.1) = e := by
    intro e he
    rw [valueOf, lookup, lookup_eq_some_of_mem t.nodup he]
    rfl
  rw [names, List.map_map]
  exact (List.map_id _).symm.trans (List.map_congr_left fun e he => (hentry e he).symm)

theorem lookup_of_mem (h : name ∈ t.names) : t.lookup name = some (t.valueOf name) := by
  rw [lookup, t.entries_eq_graph]
  exact List.lookup_graph t.valueOf h

/-- The values are those of the names, in order. -/
theorem values_eq (t : Table) : t.values = t.names.map t.valueOf := by
  rw [values, t.entries_eq_graph, List.map_map]
  rfl

/-- A name has its value in its slot. -/
theorem getElem?_values_idxOf (h : name ∈ t.names) :
    t.values[t.names.idxOf name]? = some (t.valueOf name) := by
  rw [values_eq, List.getElem?_map, List.getElem?_idxOf h]
  rfl

/-! ## Changing -/

/-- **Setting a name changes its value and no other; an unknown name is ignored.** -/
theorem valueOf_set (t : Table) (name : String) (v : Double) :
    (t.set name v).valueOf
      = if name ∈ t.names then Function.update t.valueOf name v else t.valueOf := by
  have hentries : (t.set name v).entries
      = t.names.map fun n => (n, if n = name then v else t.valueOf n) := by
    show t.entries.map (fun e => (e.1, if e.1 = name then v else e.2)) = _
    rw [t.entries_eq_graph, List.map_map]
    rfl
  funext n
  by_cases hn : n ∈ t.names
  · have hvalue : (t.set name v).valueOf n = if n = name then v else t.valueOf n := by
      rw [valueOf, lookup, hentries, List.lookup_graph _ hn]
      rfl
    rw [hvalue]
    by_cases h : n = name
    · rw [h] at hn ⊢
      rw [if_pos rfl, if_pos hn, Function.update_self]
    · rw [if_neg h]
      split
      · rw [Function.update_of_ne h]
      · rfl
  · rw [valueOf_of_not_mem (by rwa [names_set])]
    split
    · next hname =>
      have hne : n ≠ name := fun h => hn (by rwa [h])
      rw [Function.update_of_ne hne, valueOf_of_not_mem hn]
    · rw [valueOf_of_not_mem hn]

/-- **A known name has the last value that it was given.** -/
theorem valueOf_setAll (h : name ∈ t.names) (bindings : List (String × Double)) :
    (t.setAll bindings).valueOf name = (bindings.reverse.lookup name).getD (t.valueOf name) := by
  induction bindings generalizing t with
  | nil => rfl
  | cons b bindings ih =>
    obtain ⟨word, v⟩ := b
    have hfirst : (t.set word v).valueOf name
        = (List.lookup name [(word, v)]).getD (t.valueOf name) := by
      rw [valueOf_set]
      by_cases hword : name = word
      · subst hword
        rw [if_pos h, Function.update_self, List.lookup_cons_self]
        rfl
      · rw [List.lookup_cons, beq_false_of_ne hword]
        split
        · exact Function.update_of_ne hword v t.valueOf
        · rfl
    show ((t.set word v).setAll bindings).valueOf name = _
    rw [ih (by rwa [names_set]), List.reverse_cons, List.lookup_append, hfirst]
    cases bindings.reverse.lookup name with
    | some w => rfl
    | none => rfl

theorem valueOf_register (t : Table) (name : String) :
    (t.register name).valueOf = t.valueOf := by
  by_cases h : name ∈ t.names
  · rw [register_of_mem h]
  · funext n
    rw [valueOf, valueOf, lookup, lookup, entries_register_of_not_mem h, List.lookup_append]
    cases t.entries.lookup n with
    | some v => rfl
    | none =>
      show (List.lookup n [(name, Double.nan)]).getD .nan = .nan
      rw [List.lookup_cons]
      split <;> rfl

theorem valueOf_registerAll (t : Table) (names : List String) :
    (t.registerAll names).valueOf = t.valueOf := by
  induction names generalizing t with
  | nil => rfl
  | cons n names ih => exact (ih (t.register n)).trans (t.valueOf_register n)

end Formula.Table
