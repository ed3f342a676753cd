import Mathlib.Data.List.Nodup
import Formula.Proofs.Table.History
import Formula.Table.Storage

/-!
# Storages are tables

A storage belongs to a table if its index has the names of the table, each with its place, and its
values are those of the table (`Storage.Stores`). The storages that belong to a table are those with
distinct names, slots in the order of the index, and as many values as names (`exists_stores_iff`).
All operations keep this, and they answer as the table does. So none of them ever fails, whatever is
asked of a family of storages and in which order (`answerAll_fresh`).
-/

namespace Formula.Table

/-- Among names with their places, the first place of a name is found. -/
theorem lookup_zipIdx (names : List String) (name : String) (k : Nat) :
    (names.zipIdx k).lookup name = (names.idxOf? name).map fun i => i + k := by
  induction names generalizing k with
  | nil => rfl
  | cons n names ih =>
    rw [List.zipIdx_cons, List.lookup_cons, List.idxOf?_cons, ih]
    by_cases h : n = name
    · subst h
      simp
    · rw [beq_false_of_ne h, beq_false_of_ne (Ne.symm h)]
      cases names.idxOf? name with
      | none => rfl
      | some i => exact congrArg some (by show i + (k + 1) = i + 1 + k; omega)

theorem values_register_of_not_mem {t : Table} {name : String} (h : name ∉ t.names) :
    (t.register name).values = t.values ++ [.nan] := by
  rw [values, entries_register_of_not_mem h, List.map_append]
  rfl

/-- Setting a known name changes the value in its slot. -/
theorem values_set_of_mem {t : Table} {name : String} (h : name ∈ t.names) (v : Double) :
    (t.set name v).values = t.values.set (t.names.idxOf name) v := by
  have hnodup : t.names.Nodup := t.nodup
  rw [values_eq, names_set, valueOf_set, if_pos h, hnodup.map_update, if_pos h, values_eq]

/-- Steps that all succeed make a list. -/
theorem mapM_eq_ok_of_forall {ε α β : Type} {f : α → Except ε β} {g : α → β} {l : List α}
    (h : ∀ a ∈ l, f a = .ok (g a)) : l.mapM f = .ok (l.map g) := by
  induction l with
  | nil => rfl
  | cons a l ih =>
    rw [List.mapM_cons, h a List.mem_cons_self, ih fun b hb => h b (List.mem_cons_of_mem a hb)]
    rfl

namespace Storage

/-! ## Storages of a table -/

/-- The storage holds the table. -/
structure Stores (s : Storage) (t : Table) : Prop where
  index : s.index = t.names.zipIdx
  values : s.values = t.values

/-- Distinct names, each with its place as the slot, and one value for each slot. -/
structure WellFormed (s : Storage) : Prop where
  nodup : s.names.Nodup
  slots : s.index.map Prod.snd = List.range s.index.length
  length_values : s.values.length = s.index.length

theorem stores_empty : empty.Stores .empty := ⟨rfl, rfl⟩

theorem stores_withConstants : withConstants.Stores .withConstants := ⟨by decide, by decide⟩

section

variable {s : Storage} {t : Table} {name : String}

namespace Stores

theorem names_eq (h : s.Stores t) : s.names = t.names := by
  rw [Storage.names, h.index, List.zipIdx_map_fst]

theorem size_eq (h : s.Stores t) : s.size = t.size := by
  rw [Storage.size, h.index, List.length_zipIdx, size_eq_length_names]

end Stores

/-- **The storages that hold a table are the well-formed ones.** -/
theorem exists_stores_iff : (∃ t, s.Stores t) ↔ s.WellFormed := by
  constructor
  · rintro ⟨t, h⟩
    have hsize : s.index.length = t.names.length := h.size_eq.trans t.size_eq_length_names
    refine ⟨h.names_eq ▸ t.nodup, ?_, ?_⟩
    · rw [hsize, h.index, List.zipIdx_map_snd, List.range_eq_range']
    · rw [hsize, h.values, values_eq, List.length_map]
  · intro h
    have hlength : s.names.length = s.values.length := by
      rw [names, List.length_map, h.length_values]
    have hnames : (s.names.zip s.values).map Prod.fst = s.names :=
      List.map_fst_zip (Nat.le_of_eq hlength)
    refine ⟨⟨s.names.zip s.values, hnames.symm ▸ h.nodup⟩, ?_, ?_⟩
    · show s.index = List.zipIdx ((s.names.zip s.values).map Prod.fst)
      rw [hnames, List.zipIdx_eq_zip_range', ← List.range_eq_range']
      refine List.zip_of_prod rfl ?_
      rw [h.slots, names, List.length_map]
    · exact (List.map_snd_zip (Nat.le_of_eq hlength.symm)).symm

/-! ## What storages answer -/

namespace Stores

variable (h : s.Stores t)

include h

theorem lookup_index (name : String) : s.index.lookup name = t.slot? name := by
  rw [h.index, lookup_zipIdx]
  exact Option.map_id'

theorem slot_eq (name : String) : s.slot name = t.slot name := by
  rw [Storage.slot, h.lookup_index]
  rfl

theorem contains_eq (name : String) : s.contains name = t.contains name := by
  rw [Bool.eq_iff_iff, Storage.contains, h.lookup_index, slot?, List.isSome_idxOf?,
    contains_eq_decide, decide_eq_true_iff]

/-- The slot of a known name has its value. -/
theorem read_idxOf (hname : name ∈ t.names) :
    s.read (t.names.idxOf name) = .ok (t.valueOf name) := by
  rw [Storage.read, h.values, getElem?_values_idxOf hname]

/-- **A value that is read is there.** -/
theorem value_eq (name : String) : s.value name = .ok (t.value name) := by
  rw [Storage.value, h.slot_eq, Table.slot, Table.value]
  by_cases hname : name ∈ t.names
  · simp only [slot?_of_mem hname, lookup_of_mem hname, h.read_idxOf hname]
    rfl
  · simp only [slot?_of_not_mem hname, lookup_of_not_mem hname]

theorem lookup_eq (name : String) : s.lookup name = .ok (t.lookup name) := by
  rw [Storage.lookup, h.lookup_index]
  by_cases hname : name ∈ t.names
  · simp only [slot?_of_mem hname, lookup_of_mem hname, h.read_idxOf hname]
    rfl
  · simp only [slot?_of_not_mem hname, lookup_of_not_mem hname]

/-- **All values are there**, in the order of the names. -/
theorem entries_eq : s.entries = .ok t.entries := by
  have hread : ∀ e ∈ t.names.zipIdx,
      ((s.read e.2).map fun v => (e.1, v)) = .ok (e.1, t.valueOf e.1) := by
    intro e he
    have hplace : t.names[e.2]? = some e.1 := List.mem_zipIdx_iff_getElem?.mp he
    obtain ⟨hlt, hget⟩ := List.getElem?_eq_some_iff.mp hplace
    have hslot : t.names.idxOf e.1 = e.2 := by
      rw [← hget]
      exact List.Nodup.idxOf_getElem t.nodup e.2 hlt
    rw [← hslot, h.read_idxOf (List.mem_of_getElem? hplace)]
    rfl
  have hall : s.entries = .ok (t.names.zipIdx.map fun e => (e.1, t.valueOf e.1)) := by
    rw [Storage.entries, h.index]
    exact mapM_eq_ok_of_forall hread
  have hgraph : (t.names.zipIdx.map fun e => (e.1, t.valueOf e.1)) = t.entries :=
    calc t.names.zipIdx.map (fun e => (e.1, t.valueOf e.1))
        = (t.names.zipIdx.map Prod.fst).map fun name => (name, t.valueOf name) := by
          rw [List.map_map]
          rfl
      _ = t.entries := by rw [List.zipIdx_map_fst, ← entries_eq_graph]
  rw [hall, hgraph]

/-! ## What storages become -/

/-- A new name comes in at the next slot. -/
theorem add (hname : name ∉ t.names) : (s.add name .nan).Stores (t.register name) where
  index := by
    have hlength : s.values.length = t.names.length := by
      rw [h.values, values_eq, List.length_map]
    rw [names_register_of_not_mem hname, List.zipIdx_append, ← h.index, ← hlength, Nat.zero_add]
    rfl
  values := by
    rw [values_register_of_not_mem hname, ← h.values]
    rfl

theorem slotFor (name : String) :
    (s.slotFor name).1 = (t.slotFor name).1 ∧ (s.slotFor name).2.Stores (t.slotFor name).2 := by
  rw [slotFor_eq, Storage.slotFor, h.lookup_index]
  by_cases hname : name ∈ t.names
  · simp only [slot?_of_mem hname, register_of_mem hname]
    exact ⟨trivial, h⟩
  · simp only [slot?_of_not_mem hname]
    refine ⟨?_, h.add hname⟩
    rw [List.idxOf_eq_length hname, h.values, values_eq, List.length_map]

/-- **A value is written to a slot that is there.** -/
theorem set (name : String) (v : Double) :
    ∃ s', s.set name v = .ok s' ∧ s'.Stores (t.set name v) := by
  rw [Storage.set, h.lookup_index]
  by_cases hname : name ∈ t.names
  · have hslot : t.names.idxOf name < s.values.length := by
      rw [h.values, values_eq, List.length_map]
      exact List.idxOf_lt_length_of_mem hname
    simp only [slot?_of_mem hname, write, if_pos hslot]
    refine ⟨_, rfl, ?_, ?_⟩
    · rw [names_set]
      exact h.index
    · rw [values_set_of_mem hname, ← h.values]
  · simp only [slot?_of_not_mem hname, set_of_not_mem hname]
    exact ⟨s, rfl, h⟩

end Stores

end

end Storage

/-! ## Families -/

namespace StoredFamily

/-- Storages under the given names, with or without the constants. -/
def fresh (ids : List (String × Bool)) : StoredFamily :=
  ⟨ids.map fun e => (e.1, if e.2 then .withConstants else .empty)⟩

/-- Under each name there is a storage exactly if there is a table, and then the storage holds
it. -/
def Holds (g : StoredFamily) (f : Family) : Prop :=
  ∀ id, Option.Rel Storage.Stores (g.storages.lookup id) (f.tables.lookup id)

theorem holds_fresh (ids : List (String × Bool)) : (fresh ids).Holds (Family.fresh ids) := by
  intro id
  induction ids with
  | nil => exact .none
  | cons e ids ih =>
    obtain ⟨key, known⟩ := e
    show Option.Rel _ (List.lookup id ((key, _) :: (fresh ids).storages))
      (List.lookup id ((key, _) :: (Family.fresh ids).tables))
    rw [List.lookup_cons, List.lookup_cons]
    cases id == key with
    | false => exact ih
    | true =>
      cases known with
      | true => exact .some Storage.stores_withConstants
      | false => exact .some Storage.stores_empty

section

variable {g : StoredFamily} {f : Family} (h : g.Holds f)

include h

theorem Holds.put {s : Storage} {t : Table} (hs : s.Stores t) (id : String) :
    (g.put id s).Holds (f.put id t) := by
  intro other
  have hlookup : (g.put id s).storages.lookup other
      = if other = id then some s else g.storages.lookup other :=
    lookup_cons_filter g.storages id s other
  rw [hlookup, Family.lookup_put]
  split
  · exact .some hs
  · exact h other

/-- **One request is answered alike**, and afterwards the storages hold the tables again. -/
theorem Holds.answer (id : String) (r : Request) :
    (g.answer id r).2 = .ok (f.answer id r).2 ∧ (g.answer id r).1.Holds (f.answer id r).1 := by
  have hid := h id
  unfold StoredFamily.answer Family.answer
  cases hg : g.storages.lookup id with
  | none =>
    cases hf : f.tables.lookup id with
    | none => exact ⟨rfl, h⟩
    | some t => rw [hg, hf] at hid; cases hid
  | some s =>
    cases hf : f.tables.lookup id with
    | none => rw [hg, hf] at hid; cases hid
    | some t =>
      rw [hg, hf] at hid
      obtain hs : s.Stores t := by cases hid with | some hs => exact hs
      cases r with
      | slotFor name =>
        obtain ⟨hslot, hstores⟩ := hs.slotFor name
        dsimp only
        rw [hslot]
        exact ⟨rfl, h.put hstores id⟩
      | set name v =>
        obtain ⟨s', hset, hstores⟩ := hs.set name v
        simp only [hset]
        exact ⟨trivial, h.put hstores id⟩
      | copy other => exact ⟨rfl, h.put hs other⟩
      | slot | value | lookup | contains | size | names | values | entries =>
        refine ⟨?_, h⟩
        simp only [hs.slot_eq, hs.value_eq, hs.lookup_eq, hs.contains_eq, hs.size_eq, hs.names_eq,
          hs.values, hs.entries_eq, Except.map]

/-- **Storages answer as the tables that they hold.** -/
theorem answerAll_of_holds (rs : List (String × Request)) :
    g.answerAll rs = (f.answerAll rs).map .ok := by
  induction rs generalizing g f with
  | nil => rfl
  | cons r rs ih =>
    obtain ⟨hanswer, hholds⟩ := h.answer r.1 r.2
    show (g.answer r.1 r.2).2 :: (g.answer r.1 r.2).1.answerAll rs = _
    rw [hanswer, ih hholds]
    rfl

end

/-- **Whatever is asked of stored tables, they answer as tables do**, and no request fails. -/
theorem answerAll_fresh (ids : List (String × Bool)) (rs : List (String × Request)) :
    (fresh ids).answerAll rs = ((Family.fresh ids).answerAll rs).map .ok :=
  answerAll_of_holds (holds_fresh ids) rs

end StoredFamily

end Formula.Table
