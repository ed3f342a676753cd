/-!
# Looking up in lists of pairs

Tables, columns, sessions and the cache are lists of keys with values, read by `List.lookup`: the
first entry of a key counts.
-/

namespace Formula

variable {κ ν : Type} [BEq κ] [LawfulBEq κ] {l : List (κ × ν)} {k : κ} {v : ν}

theorem mem_of_lookup_eq_some (h : l.lookup k = some v) : (k, v) ∈ l := by
  obtain ⟨before, after, hsplit, -⟩ := List.lookup_eq_some_iff.mp h
  simp [hsplit]

/-- Where no key occurs twice, every entry counts. -/
theorem lookup_eq_some_of_mem (hnodup : (l.map Prod.fst).Nodup) (h : (k, v) ∈ l) :
    l.lookup k = some v := by
  obtain ⟨before, after, hsplit⟩ := List.append_of_mem h
  refine List.lookup_eq_some_iff.mpr ⟨before, after, hsplit, ?_⟩
  intro e he
  rw [hsplit, List.map_append, List.map_cons, List.nodup_append] at hnodup
  have hne : e.1 ≠ k := hnodup.2.2 e.1 (List.mem_map_of_mem he) k List.mem_cons_self
  simpa using hne.symm

theorem lookup_eq_none_of_not_mem (h : k ∉ l.map Prod.fst) : l.lookup k = none := by
  refine List.lookup_eq_none_iff.mpr ?_
  intro e he
  have hne : k ≠ e.1 := fun heq => h (heq ▸ List.mem_map_of_mem he)
  simpa using hne

theorem exists_lookup_of_mem (h : k ∈ l.map Prod.fst) : ∃ v, l.lookup k = some v := by
  obtain ⟨e, he, rfl⟩ := List.mem_map.mp h
  cases hlookup : l.lookup e.1 with
  | some v => exact ⟨v, rfl⟩
  | none =>
    have hne := List.lookup_eq_none_iff.mp hlookup e he
    simp at hne

/-- An entry that takes the place of all others of its key. -/
theorem lookup_cons_filter [DecidableEq κ] (l : List (κ × ν)) (k : κ) (v : ν) (other : κ) :
    ((k, v) :: l.filter fun e => e.1 ≠ k).lookup other
      = if other = k then some v else l.lookup other := by
  by_cases h : other = k
  · simp [h]
  · rw [List.lookup_cons, beq_false_of_ne h, if_neg h]
    induction l with
    | nil => rfl
    | cons e l ih =>
      obtain ⟨key, value⟩ := e
      by_cases hkey : key = k
      · simpa [hkey, List.lookup_cons, beq_false_of_ne h] using ih
      · simp only [ne_eq, hkey, not_false_eq_true, decide_true, List.filter_cons_of_pos,
          List.lookup_cons]
        cases other == key with
        | true => rfl
        | false => exact ih

/-- Keys may be written in another way, if the key that is looked up stays apart from all others. -/
theorem lookup_map_fst {κ' : Type} [BEq κ'] [LawfulBEq κ'] {g : κ → κ'} {k : κ}
    (hg : ∀ key, g k = g key → k = key) (l : List (κ × ν)) :
    (l.map fun e => (g e.1, e.2)).lookup (g k) = l.lookup k := by
  induction l with
  | nil => rfl
  | cons e l ih =>
    obtain ⟨key, value⟩ := e
    rw [List.map_cons, List.lookup_cons, List.lookup_cons, ih]
    by_cases hkey : k = key
    · subst hkey
      simp
    · rw [beq_false_of_ne hkey, beq_false_of_ne fun h => hkey (hg key h)]

omit [LawfulBEq κ] in
/-- A value may be changed before or after it is looked up. -/
theorem lookup_map_snd {ν' : Type} (f : ν → ν') (k : κ) (l : List (κ × ν)) :
    (l.map fun e => (e.1, f e.2)).lookup k = (l.lookup k).map f := by
  induction l with
  | nil => rfl
  | cons e l ih =>
    obtain ⟨key, value⟩ := e
    rw [List.map_cons, List.lookup_cons, List.lookup_cons, ih]
    cases k == key <;> rfl

end Formula
