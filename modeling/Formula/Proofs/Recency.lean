import Mathlib.Data.List.Basic
import Formula.Cache

/-!
# What was used last

A cache that drops what was not used for longest holds what was used last. Here that is said in
terms of the history alone: `used` lists the keys in the order of their uses, the latest first, with
repetitions. Without the repetitions (`List.eraseDups`, which keeps the first of them) it tells the
keys in the order of their last uses, and the cache holds as many of these as it can
(`Cache.Recent`).

Main statements: storing a key keeps this so (`Recent.store`), and a key is found exactly if fewer
other keys than the cache can hold were used since its last use (`Recent.isSome_find?_iff`).
-/

namespace Formula

section

variable {κ : Type} [BEq κ] [LawfulBEq κ]

/-! ## Histories without repetitions -/

theorem nodup_eraseDups (used : List κ) : used.eraseDups.Nodup := by
  cases used with
  | nil => simp
  | cons k used =>
    rw [List.eraseDups_cons, List.nodup_cons]
    exact ⟨by simp [List.mem_eraseDups], nodup_eraseDups (used.filter fun x => !x == k)⟩
termination_by used.length
decreasing_by exact Nat.lt_succ_of_le (List.length_filter_le _ _)

theorem eraseDups_filter (p : κ → Bool) (used : List κ) :
    (used.filter p).eraseDups = used.eraseDups.filter p := by
  cases used with
  | nil => rfl
  | cons k used =>
    have ih := eraseDups_filter p (used.filter fun x => !x == k)
    rw [List.eraseDups_cons]
    by_cases hk : p k
    · rw [List.filter_cons_of_pos hk, List.filter_cons_of_pos hk, List.eraseDups_cons, ← ih,
        List.filter_comm]
    · -- among the keys with the property, none is equal to one without it
      have hne : ∀ x ∈ used.filter p, (!x == k) = true := by
        intro x hx
        have hxk : x ≠ k := by
          rintro rfl
          exact hk (List.mem_filter.mp hx).2
        simp [hxk]
      rw [List.filter_cons_of_neg hk, List.filter_cons_of_neg hk, ← ih, List.filter_comm,
        List.filter_eq_self.mpr hne]
termination_by used.length
decreasing_by exact Nat.lt_succ_of_le (List.length_filter_le _ _)

/-- Once a key is taken out, the first `n` of the others are among the first `n + 1` keys. -/
theorem take_filter_take {keys : List κ} (h : keys.Nodup) (k : κ) (n : Nat) :
    ((keys.take (n + 1)).filter fun x => !x == k).take n
      = (keys.filter fun x => !x == k).take n := by
  induction keys generalizing n with
  | nil => rfl
  | cons x keys ih =>
    obtain ⟨hx, hkeys⟩ := List.nodup_cons.mp h
    rw [List.take_succ_cons]
    by_cases hk : x = k
    · -- the key takes one place, and stands nowhere else
      have hother : ∀ y ∈ keys, (!y == k) = true := by
        intro y hy
        have hne : y ≠ k := by
          rintro rfl
          exact hx (hk ▸ hy)
        simp [hne]
      have htake : (keys.take n).filter (fun y => !y == k) = keys.take n :=
        List.filter_eq_self.mpr fun y hy => hother y (List.mem_of_mem_take hy)
      simp [hk, htake, List.filter_eq_self.mpr hother, List.take_take]
    · cases n with
      | zero => rfl
      | succ n => simpa [hk] using ih hkeys n

/-- Which of the first keys is which: before a key stand those used since its last use. -/
theorem mem_take_eraseDups_iff {used : List κ} {k : κ} {n : Nat} :
    k ∈ used.eraseDups.take n
      ↔ k ∈ used ∧ (used.takeWhile fun x => !x == k).eraseDups.length < n := by
  by_cases hk : k ∈ used
  · obtain ⟨later, earlier, rfl, hlater⟩ := List.eq_append_cons_of_mem hk
    have hall : ∀ x ∈ later, (!x == k) = true := by
      intro x hx
      have hne : x ≠ k := fun h => hlater (h ▸ hx)
      simp [hne]
    have hsince : (later ++ k :: earlier).takeWhile (fun x => !x == k) = later := by
      rw [List.takeWhile_append_of_pos hall]
      simp
    have hrest : ∃ rest, (later ++ k :: earlier).eraseDups = later.eraseDups ++ k :: rest := by
      rw [List.eraseDups_append, List.removeAll, List.filter_cons_of_pos (by simpa using hlater),
        List.eraseDups_cons]
      exact ⟨_, rfl⟩
    obtain ⟨rest, hrest⟩ := hrest
    have hmem : k ∉ later.eraseDups := fun h => hlater (List.mem_eraseDups.mp h)
    rw [hsince, hrest, List.take_append, List.mem_append]
    rcases Nat.lt_or_ge later.eraseDups.length n with hn | hn
    · obtain ⟨m, hm⟩ : ∃ m, n - later.eraseDups.length = m + 1 :=
        ⟨_, (Nat.succ_pred (by omega)).symm⟩
      simp [hm, hn]
    · have hm : n - later.eraseDups.length = 0 := by omega
      have htake : k ∉ later.eraseDups.take n := fun h => hmem (List.mem_of_mem_take h)
      simp [hm, htake, Nat.not_lt.mpr hn]
  · have htake : k ∉ used.eraseDups.take n :=
      fun h => hk (List.mem_eraseDups.mp (List.mem_of_mem_take h))
    simp [hk, htake]

end

/-! ## Caches -/

namespace Cache

variable {κ ν : Type} [BEq κ] {c : Cache κ ν} {used : List κ} {k : κ}

/-- The keys that are held, the one used last in front. -/
def keys (c : Cache κ ν) : List κ := c.entries.map Prod.fst

/-- The cache holds the keys used last, as many as it can. -/
def Recent (c : Cache κ ν) (used : List κ) : Prop :=
  c.keys = used.eraseDups.take c.capacity

theorem recent_empty (capacity : Nat) : (empty capacity : Cache κ ν).Recent [] := by
  simp [Recent, keys, empty]

theorem keys_store (c : Cache κ ν) (k : κ) (v : ν) :
    (c.store k v).keys = (k :: c.keys.filter fun x => !x == k).take c.capacity := by
  unfold keys store erase
  rw [List.map_take, List.map_cons, List.filter_map]
  rfl

variable [LawfulBEq κ]

/-- **Storing a key is a use of it.** -/
theorem Recent.store (h : c.Recent used) (k : κ) (v : ν) : (c.store k v).Recent (k :: used) := by
  show (c.store k v).keys = _
  rw [keys_store, h, List.eraseDups_cons, eraseDups_filter]
  show _ = (k :: used.eraseDups.filter fun x => !x == k).take c.capacity
  cases c.capacity with
  | zero => rfl
  | succ n =>
    rw [List.take_succ_cons, List.take_succ_cons, take_filter_take (nodup_eraseDups used)]

/-- **What is found was used, and few others since.** -/
theorem Recent.isSome_find?_iff (h : c.Recent used) (k : κ) :
    (c.find? k).isSome
      ↔ k ∈ used ∧ (used.takeWhile fun x => !x == k).eraseDups.length < c.capacity := by
  rw [← mem_take_eraseDups_iff, ← h, find?, List.lookup_isSome_iff, keys, List.mem_map]
  constructor
  · rintro ⟨e, he, hk⟩
    exact ⟨e, he, (eq_of_beq hk).symm⟩
  · rintro ⟨e, he, hk⟩
    exact ⟨e, he, by simp [hk]⟩

end Cache

end Formula
