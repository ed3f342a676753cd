/-!
# Rectangular arrays

A tensor has a shape, the list of its extents, and its elements in row-major order: the last index
varies fastest. The empty shape has one element, and a shape with an extent 0 has none.

A tensor is read at an index, one number for each extent. All operations build their result by
giving the element at each index of the result's shape.
-/

namespace Formula

/-- How many elements a shape has. -/
def Tensor.count : List Nat → Nat
  | [] => 1
  | n :: shape => n * count shape

/-- A shape and its elements in row-major order. -/
structure Tensor (α : Type) where
  shape : List Nat
  data : Array α
  size_data : data.size = Tensor.count shape

namespace Tensor

variable {α β : Type}

/-! ## Indices -/

/-- All indices of a shape in row-major order. -/
def indices : List Nat → List (List Nat)
  | [] => [[]]
  | n :: shape => (List.range n).flatMap fun i => (indices shape).map (i :: ·)

theorem length_indices : ∀ shape, (indices shape).length = count shape
  | [] => rfl
  | n :: shape => by
    simp [indices, count, List.length_flatMap, length_indices shape, List.map_const']

/-- Where the element at an index stands among all elements. -/
def offset : List Nat → List Nat → Nat
  | _ :: shape, i :: ix => i * count shape + offset shape ix
  | _, _ => 0

/-! ## Building and reading -/

/-- The tensor with a given element at each index. -/
def ofFn (shape : List Nat) (f : List Nat → α) : Tensor α :=
  ⟨shape, ((indices shape).map f).toArray, by
    rw [List.size_toArray, List.length_map, length_indices]⟩

/-- A tensor without extents. -/
def scalar (x : α) : Tensor α := ⟨[], #[x], rfl⟩

/-- The element at an index of the shape. -/
def get [Inhabited α] (t : Tensor α) (ix : List Nat) : α := t.data.getD (offset t.shape ix) default

def map (f : α → β) (t : Tensor α) : Tensor β :=
  ⟨t.shape, t.data.map f, by rw [Array.size_map]; exact t.size_data⟩

/-! ## Parts and stacks -/

/-- The part at place `i` of an axis; the axis disappears. -/
def slice [Inhabited α] (t : Tensor α) (axis i : Nat) : Tensor α :=
  ofFn (t.shape.eraseIdx axis) fun ix => t.get (ix.insertIdx axis i)

/-- Tensors of one shape along a new leading axis. -/
def stack [Inhabited α] (shape : List Nat) (parts : List (Tensor α)) : Tensor α :=
  ofFn (parts.length :: shape) fun
    | [] => default
    | i :: ix => (parts[i]?.map fun p => p.get ix).getD default

end Tensor

end Formula
