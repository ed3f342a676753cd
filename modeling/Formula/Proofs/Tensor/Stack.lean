import Formula.Proofs.Tensor.Index

/-!
# Stacks of tensors

A tensor is its shape and its elements: two tensors of one shape that have the same element at each
index are the same (`ext_get`). So the part of a stack at a place is the tensor that was put there
(`slice_stack`), and these parts make a tensor (`eq_of_slice_eq`).
-/

namespace Formula.Tensor

variable {α : Type}

/-! ## Elements make a tensor -/

/-- Blocks of one length, one behind the other. -/
theorem flatMap_range_add_range (c n : Nat) :
    (List.range n).flatMap (fun i => (List.range c).map (i * c + ·)) = List.range (n * c) := by
  induction n with
  | zero => simp
  | succ n ih =>
    rw [List.range_succ, List.flatMap_append, ih, Nat.succ_mul, List.range_add]
    simp

/-- The offsets of all indices, in order, are all places. -/
theorem map_offset_indices (shape : List Nat) :
    (indices shape).map (offset shape) = List.range (count shape) := by
  induction shape with
  | nil => rfl
  | cons n shape ih =>
    rw [indices, List.map_flatMap, count, ← flatMap_range_add_range]
    congr 1
    funext i
    rw [← ih, List.map_map, List.map_map]
    rfl

variable [Inhabited α]

/-- The elements of a tensor are those at its indices. -/
theorem toList_data (x : Tensor α) : x.data.toList = (indices x.shape).map x.get := by
  have hget : (indices x.shape).map x.get
      = ((indices x.shape).map (offset x.shape)).map fun k => x.data.getD k default := by
    rw [List.map_map]
    rfl
  rw [hget, map_offset_indices, ← x.size_data]
  refine List.ext_getElem (by simp) fun k hk _ => ?_
  have hsize : k < x.data.size := hk
  simp [Array.getD_eq_getD_getElem?, hsize]

/-- **A tensor is its shape and its elements.** -/
theorem ext_get {x y : Tensor α} (hshape : x.shape = y.shape)
    (h : ∀ ix ∈ indices x.shape, x.get ix = y.get ix) : x = y := by
  have hdata : x.data.toList = y.data.toList := by
    rw [toList_data, toList_data, ← hshape]
    exact List.map_congr_left h
  obtain ⟨shape, data, hsize⟩ := x
  obtain ⟨shape', data', hsize'⟩ := y
  obtain rfl : shape = shape' := hshape
  obtain rfl : data = data' := Array.toList_inj.mp hdata
  rfl

/-! ## Parts -/

theorem get_slice (x : Tensor α) {axis i : Nat} {ix : List Nat}
    (h : ix ∈ indices (x.shape.eraseIdx axis)) :
    (x.slice axis i).get ix = x.get (ix.insertIdx axis i) := get_ofFn _ h

theorem slice_stack {shape : List Nat} {parts : List (Tensor α)} {i : Nat} {x : Tensor α}
    (hx : parts[i]? = some x) (hshape : x.shape = shape) : (stack shape parts).slice 0 i = x := by
  subst hshape
  obtain ⟨hi, -⟩ := List.getElem?_eq_some_iff.mp hx
  refine ext_get rfl fun ix hix => ?_
  have hindex : i :: ix ∈ indices (parts.length :: x.shape) :=
    mem_indices.mpr (.cons hi (mem_indices.mp hix))
  rw [get_slice _ hix]
  show (stack x.shape parts).get (i :: ix) = _
  rw [stack, get_ofFn _ hindex]
  simp [hx]

/-- **A tensor is its parts along the first axis**, and its shape where there are none. -/
theorem eq_of_slice_eq {x y : Tensor α} {n : Nat} {shape : List Nat} (hx : x.shape = n :: shape)
    (hy : y.shape = n :: shape) (h : ∀ i < n, x.slice 0 i = y.slice 0 i) : x = y := by
  refine ext_get (hx.trans hy.symm) fun ix hix => ?_
  rw [hx] at hix
  cases mem_indices.mp hix with
  | @cons i _ ix _ hi hix =>
    have hpart : ∀ {z : Tensor α}, z.shape = n :: shape →
        z.get (i :: ix) = (z.slice 0 i).get ix := by
      intro z hz
      show z.get (ix.insertIdx 0 i) = _
      refine (z.get_slice ?_).symm
      rw [hz]
      exact mem_indices.mpr hix
    rw [hpart hx, hpart hy, h i hi]

end Formula.Tensor
