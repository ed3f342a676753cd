import Mathlib.Data.List.Forall2
import Formula.Tensor.Basic

/-!
# Indices of tensors

An index of a shape has one number below each extent (`mem_indices`). The offset of an index is its
place among all indices of the shape (`getElem?_offset`). So a tensor that is built from its
elements has these elements (`get_ofFn`).
-/

namespace Formula.Tensor

variable {α β : Type}

instance [DecidableEq α] : DecidableEq (Tensor α) := fun x y =>
  decidable_of_iff (x.shape = y.shape ∧ x.data = y.data) <| by
    cases x
    cases y
    simp

/-! ## Indices in order -/

/-- **An index has a number below each extent.** -/
theorem mem_indices {shape ix : List Nat} :
    ix ∈ indices shape ↔ List.Forall₂ (· < ·) ix shape := by
  induction shape generalizing ix with
  | nil => simp [indices]
  | cons n shape ih =>
    simp only [indices, List.mem_flatMap, List.mem_range, List.mem_map, ih]
    constructor
    · rintro ⟨i, hi, rest, hrest, rfl⟩
      exact .cons hi hrest
    · intro h
      cases h with
      | cons hi hrest => exact ⟨_, hi, _, hrest, rfl⟩

/-- Blocks of one length lie behind each other. -/
theorem getElem?_flatMap_of_length {f : α → List β} {c : Nat} {xs : List α}
    (hf : ∀ x ∈ xs, (f x).length = c) (i : Nat) {j : Nat} (hj : j < c) :
    (xs.flatMap f)[i * c + j]? = xs[i]?.bind fun x => (f x)[j]? := by
  induction xs generalizing i with
  | nil => simp
  | cons x xs ih =>
    have hx : (f x).length = c := hf x List.mem_cons_self
    have hxs : ∀ y ∈ xs, (f y).length = c := fun y hy => hf y (List.mem_cons_of_mem x hy)
    rw [List.flatMap_cons]
    cases i with
    | zero =>
      rw [Nat.zero_mul, Nat.zero_add, List.getElem?_append_left (hx ▸ hj)]
      rfl
    | succ i =>
      have hplace : (i + 1) * c + j = c + (i * c + j) := by
        rw [Nat.succ_mul]
        omega
      rw [hplace, List.getElem?_append_right (by omega), hx, Nat.add_sub_cancel_left, ih hxs i,
        List.getElem?_cons_succ]

theorem offset_lt_count {shape ix : List Nat} (h : List.Forall₂ (· < ·) ix shape) :
    offset shape ix < count shape := by
  induction h with
  | nil => exact Nat.one_pos
  | @cons i n ix shape hi _ ih =>
    have hblock : (i + 1) * count shape ≤ n * count shape := Nat.mul_le_mul_right _ hi
    rw [Nat.succ_mul] at hblock
    simp only [offset, count]
    omega

/-- **An offset is the place among all indices.** -/
theorem getElem?_offset {shape ix : List Nat} (h : List.Forall₂ (· < ·) ix shape) :
    (indices shape)[offset shape ix]? = some ix := by
  induction h with
  | nil => rfl
  | @cons i n ix shape hi hix ih =>
    have hlength : ∀ m ∈ List.range n, ((indices shape).map (m :: ·)).length = count shape := by
      intro m _
      rw [List.length_map, length_indices]
    rw [indices, offset, getElem?_flatMap_of_length hlength i (offset_lt_count hix),
      List.getElem?_range hi, Option.bind_some, List.getElem?_map, ih]
    rfl

/-! ## Elements -/

variable [Inhabited α] [Inhabited β]

/-- **A tensor has the elements from which it is built.** -/
theorem get_ofFn {shape ix : List Nat} (f : List Nat → α) (h : ix ∈ indices shape) :
    (ofFn shape f).get ix = f ix := by
  have hplace := getElem?_offset (mem_indices.mp h)
  simp [get, ofFn, Array.getD_eq_getD_getElem?, hplace]

theorem get_map {t : Tensor α} {ix : List Nat} (f : α → β) (h : ix ∈ indices t.shape) :
    (t.map f).get ix = f (t.get ix) := by
  have hlt : offset t.shape ix < t.data.size := by
    rw [t.size_data]
    exact offset_lt_count (mem_indices.mp h)
  simp [get, map, Array.getD_eq_getD_getElem?, hlt]

end Formula.Tensor
