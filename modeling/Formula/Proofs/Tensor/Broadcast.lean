import Formula.Proofs.Tensor.Index
import Formula.Tensor.Broadcast

/-!
# Shapes that fit together

A shape stretches to another one if, aligned at the last extents, each of its extents is 1 or the
same. This is an order on shapes. The joint shape of two is the least shape to which both stretch,
and they have one as soon as there is any such shape (`exists_jointShape`). So the order of joining
does not matter, and the joint shape of many is the least one for all of them (`IsJoint`).

Reading through a stretched shape is reading directly (`project_project`). That is why the elements
of a joined tensor can be told at the indices of any larger shape (`exists_zipWith`).

Everything runs along the reversed shapes, where the extents that belong together meet.
-/

namespace Formula.Tensor

/-! ## Stretching -/

/-- Stretching, first extent last. -/
def stretchesReversed : List Nat → List Nat → Prop
  | [], _ => True
  | _ :: _, [] => False
  | m :: s, n :: t => (m = 1 ∨ m = n) ∧ stretchesReversed s t

/-- Aligned at the last extents, each extent of `s` is 1 or that of `t`. -/
def StretchesTo (s t : List Nat) : Prop := stretchesReversed s.reverse t.reverse

instance decidableStretchesReversed : (s t : List Nat) → Decidable (stretchesReversed s t)
  | [], _ => .isTrue trivial
  | _ :: _, [] => .isFalse id
  | m :: s, n :: t =>
    have := decidableStretchesReversed s t
    inferInstanceAs (Decidable ((m = 1 ∨ m = n) ∧ stretchesReversed s t))

instance (s t : List Nat) : Decidable (StretchesTo s t) :=
  inferInstanceAs (Decidable (stretchesReversed s.reverse t.reverse))

theorem stretchesReversed_refl (s : List Nat) : stretchesReversed s s := by
  induction s with
  | nil => trivial
  | cons m s ih => exact ⟨.inr rfl, ih⟩

theorem stretchesReversed_trans {s t u : List Nat} (hst : stretchesReversed s t)
    (htu : stretchesReversed t u) : stretchesReversed s u := by
  induction s generalizing t u with
  | nil => trivial
  | cons m s ih =>
    cases t with
    | nil => exact hst.elim
    | cons n t =>
      cases u with
      | nil => exact htu.elim
      | cons k u =>
        obtain ⟨hm, hst⟩ := hst
        obtain ⟨hn, htu⟩ := htu
        refine ⟨?_, ih hst htu⟩
        rcases hm with rfl | rfl
        · exact .inl rfl
        · exact hn

theorem stretchesReversed_antisymm {s t : List Nat} (hst : stretchesReversed s t)
    (hts : stretchesReversed t s) : s = t := by
  induction s generalizing t with
  | nil =>
    cases t with
    | nil => rfl
    | cons n t => exact hts.elim
  | cons m s ih =>
    cases t with
    | nil => exact hst.elim
    | cons n t =>
      have hmn : m = n := by
        have := hst.1
        have := hts.1
        omega
      rw [hmn, ih hst.2 hts.2]

theorem length_le_of_stretchesReversed {s t : List Nat} (h : stretchesReversed s t) :
    s.length ≤ t.length := by
  induction s generalizing t with
  | nil => exact Nat.zero_le _
  | cons m s ih =>
    cases t with
    | nil => exact h.elim
    | cons n t => exact Nat.succ_le_succ (ih h.2)

@[simp] theorem StretchesTo.nil (t : List Nat) : StretchesTo [] t := trivial

theorem StretchesTo.refl (s : List Nat) : StretchesTo s s := stretchesReversed_refl _

theorem StretchesTo.trans {s t u : List Nat} (hst : StretchesTo s t) (htu : StretchesTo t u) :
    StretchesTo s u := stretchesReversed_trans hst htu

theorem StretchesTo.antisymm {s t : List Nat} (hst : StretchesTo s t) (hts : StretchesTo t s) :
    s = t := List.reverse_injective (stretchesReversed_antisymm hst hts)

theorem StretchesTo.length_le {s t : List Nat} (h : StretchesTo s t) : s.length ≤ t.length := by
  simpa using length_le_of_stretchesReversed h

/-! ## Joint shapes -/

/-- Two extents that both stretch to a third have a joint one below it. -/
theorem exists_jointExtent {m n k : Nat} (hm : m = 1 ∨ m = k) (hn : n = 1 ∨ n = k) :
    ∃ j, jointExtent m n = some j ∧ (m = 1 ∨ m = j) ∧ (n = 1 ∨ n = j) ∧ (j = m ∨ j = n) := by
  unfold jointExtent
  split_ifs with hmn hm1 hn1
  · exact ⟨m, rfl, .inr rfl, .inr hmn.symm, .inl rfl⟩
  · exact ⟨n, rfl, .inl hm1, .inr rfl, .inr rfl⟩
  · exact ⟨m, rfl, .inr rfl, .inl hn1, .inl rfl⟩
  · omega

/-- **Two shapes that stretch to a common one have a joint shape, and it is the least such.** -/
theorem exists_jointReversed {s t k : List Nat} (hs : stretchesReversed s k)
    (ht : stretchesReversed t k) :
    ∃ u, jointReversed s t = some u ∧ stretchesReversed s u ∧ stretchesReversed t u ∧
      ∀ j, stretchesReversed s j → stretchesReversed t j → stretchesReversed u j := by
  induction s generalizing t k with
  | nil =>
    refine ⟨t, by simp [jointReversed], trivial, stretchesReversed_refl t, ?_⟩
    intro j _ htj
    exact htj
  | cons m s ih =>
    cases t with
    | nil =>
      refine ⟨m :: s, rfl, stretchesReversed_refl _, trivial, ?_⟩
      intro j hsj _
      exact hsj
    | cons n t =>
      cases k with
      | nil => exact hs.elim
      | cons k ks =>
        obtain ⟨e, he, hme, hne, heq⟩ := exists_jointExtent hs.1 ht.1
        obtain ⟨u, hu, hsu, htu, hleast⟩ := ih hs.2 ht.2
        refine ⟨e :: u, by simp [jointReversed, he, hu], ⟨hme, hsu⟩, ⟨hne, htu⟩, ?_⟩
        intro j hsj htj
        cases j with
        | nil => exact hsj.elim
        | cons j js =>
          refine ⟨?_, hleast js hsj.2 htj.2⟩
          rcases heq with rfl | rfl
          · exact hsj.1
          · exact htj.1

/-- The least shape to which all of some shapes stretch. The joint shape of no shapes is empty. -/
structure IsJoint (shapes : List (List Nat)) (joint : List Nat) : Prop where
  stretches : ∀ s ∈ shapes, StretchesTo s joint
  least : ∀ t, (∀ s ∈ shapes, StretchesTo s t) → StretchesTo joint t

/-- There is a shape to which all of some shapes stretch. -/
def Compatible (shapes : List (List Nat)) : Prop := ∃ t, ∀ s ∈ shapes, StretchesTo s t

theorem exists_jointShape {s t k : List Nat} (hs : StretchesTo s k) (ht : StretchesTo t k) :
    ∃ u, jointShape s t = some u ∧ IsJoint [s, t] u := by
  obtain ⟨u, hu, hsu, htu, hleast⟩ := exists_jointReversed hs ht
  refine ⟨u.reverse, by simp [jointShape, hu], ?_, ?_⟩
  · simp [StretchesTo, hsu, htu]
  · intro j hj
    have hsj : StretchesTo s j := hj s (by simp)
    have htj : StretchesTo t j := hj t (by simp)
    simpa [StretchesTo] using hleast j.reverse hsj htj

theorem IsJoint.nil : IsJoint [] [] where
  stretches := by simp
  least := by simp

theorem IsJoint.singleton (s : List Nat) : IsJoint [s] s where
  stretches := by simp [StretchesTo.refl]
  least t h := h s (by simp)

/-- There is one joint shape. -/
theorem IsJoint.unique {shapes : List (List Nat)} {s t : List Nat} (hs : IsJoint shapes s)
    (ht : IsJoint shapes t) : s = t :=
  (hs.least t ht.stretches).antisymm (ht.least s hs.stretches)

/-- Shapes that are all the same have this one as their joint shape. -/
theorem IsJoint.of_forall_eq {shapes : List (List Nat)} {s : List Nat} (hne : shapes ≠ [])
    (h : ∀ t ∈ shapes, t = s) : IsJoint shapes s where
  stretches t ht := h t ht ▸ .refl t
  least t ht := by
    obtain ⟨u, hu⟩ := List.exists_mem_of_ne_nil shapes hne
    exact h u hu ▸ ht u hu

/-- **Shapes may be joined in groups.** -/
theorem IsJoint.append {ss ts : List (List Nat)} {s t u : List Nat} (hs : IsJoint ss s)
    (ht : IsJoint ts t) (hu : IsJoint [s, t] u) : IsJoint (ss ++ ts) u where
  stretches x hx := by
    rcases List.mem_append.mp hx with hx | hx
    · exact (hs.stretches x hx).trans (hu.stretches s (by simp))
    · exact (ht.stretches x hx).trans (hu.stretches t (by simp))
  least j hj := by
    have hsj : StretchesTo s j := hs.least j fun x hx => hj x (List.mem_append_left ts hx)
    have htj : StretchesTo t j := ht.least j fun x hx => hj x (List.mem_append_right ss hx)
    exact hu.least j (by simp [hsj, htj])

/-! ## Projected indices -/

/-- The number of an index that counts for an extent. -/
def projected (n i : Nat) : Nat := if n = 1 then 0 else i

theorem reverse_project {shape ix : List Nat} (h : shape.length ≤ ix.length) :
    (project shape ix).reverse = List.zipWith projected shape.reverse ix.reverse := by
  have hdrop : (ix.drop (ix.length - shape.length)).reverse
      = ix.reverse.take shape.reverse.length := by
    rw [List.reverse_drop, List.length_reverse]
    congr 1
    omega
  calc (project shape ix).reverse
      = List.zipWith projected shape.reverse (ix.drop (ix.length - shape.length)).reverse :=
        List.reverse_zipWith (by rw [List.length_drop]; omega)
    _ = (List.zipWith projected shape.reverse ix.reverse).take shape.reverse.length := by
        rw [hdrop, List.take_zipWith, List.take_length]
    _ = List.zipWith projected shape.reverse ix.reverse := List.take_of_length_le (by simp [h])

theorem zipWith_projected_lt {s t ix : List Nat} (hst : stretchesReversed s t)
    (hix : List.Forall₂ (· < ·) ix t) :
    List.Forall₂ (· < ·) (List.zipWith projected s ix) s := by
  induction s generalizing t ix with
  | nil => exact .nil
  | cons m s ih =>
    cases hix with
    | nil => exact hst.elim
    | cons hi hrest =>
      refine .cons ?_ (ih hst.2 hrest)
      unfold projected
      split_ifs with hm
      · omega
      · rw [hst.1.resolve_left hm]
        exact hi

theorem zipWith_projected_zipWith {s t ix : List Nat} (hst : stretchesReversed s t)
    (hix : t.length ≤ ix.length) :
    List.zipWith projected s (List.zipWith projected t ix) = List.zipWith projected s ix := by
  induction s generalizing t ix with
  | nil => rfl
  | cons m s ih =>
    cases t with
    | nil => exact hst.elim
    | cons n t =>
      cases ix with
      | nil => simp at hix
      | cons i ix =>
        have hstep : projected m (projected n i) = projected m i := by
          unfold projected
          rcases hst.1 with rfl | rfl
          · rfl
          · split_ifs <;> rfl
        rw [List.zipWith_cons_cons, List.zipWith_cons_cons, List.zipWith_cons_cons, hstep,
          ih hst.2 (Nat.le_of_succ_le_succ hix)]

theorem zipWith_projected_self {s ix : List Nat} (hix : List.Forall₂ (· < ·) ix s) :
    List.zipWith projected s ix = ix := by
  induction hix with
  | nil => rfl
  | @cons i n ix s hi _ ih =>
    have hstep : projected n i = i := by
      unfold projected
      split_ifs <;> omega
    rw [List.zipWith_cons_cons, hstep, ih]

section

variable {s t ix : List Nat}

theorem forall₂_reverse_of_mem_indices (h : ix ∈ indices t) :
    List.Forall₂ (· < ·) ix.reverse t.reverse :=
  List.forall₂_reverse_iff.mpr (mem_indices.mp h)

theorem length_of_mem_indices (h : ix ∈ indices t) : ix.length = t.length :=
  (mem_indices.mp h).length_eq

/-- A shape is read at one of its own indices. -/
theorem project_mem_indices (hst : StretchesTo s t) (h : ix ∈ indices t) :
    project s ix ∈ indices s := by
  have hlength : s.length ≤ ix.length := length_of_mem_indices h ▸ hst.length_le
  rw [mem_indices, ← List.forall₂_reverse_iff, reverse_project hlength]
  exact zipWith_projected_lt hst (forall₂_reverse_of_mem_indices h)

/-- **Reading through a shape in between is reading directly.** -/
theorem project_project (hst : StretchesTo s t) {u : List Nat} (htu : StretchesTo t u)
    (h : ix ∈ indices u) : project s (project t ix) = project s ix := by
  have hix : t.length ≤ ix.length := length_of_mem_indices h ▸ htu.length_le
  have hlength := length_of_mem_indices (project_mem_indices htu h)
  refine List.reverse_injective ?_
  rw [reverse_project (hlength ▸ hst.length_le), reverse_project hix,
    reverse_project (Nat.le_trans hst.length_le hix)]
  exact zipWith_projected_zipWith hst (by simpa using hix)

/-- At its own indices a shape is read as it stands. -/
theorem project_self (h : ix ∈ indices s) : project s ix = ix := by
  refine List.reverse_injective ?_
  rw [reverse_project (Nat.le_of_eq (length_of_mem_indices h).symm)]
  exact zipWith_projected_self (forall₂_reverse_of_mem_indices h)

end

/-! ## Elements -/

section

variable {α β γ : Type} [Inhabited α] [Inhabited β] [Inhabited γ] {t ix : List Nat}

@[simp] theorem read_scalar (x : α) (ix : List Nat) : (scalar x).read ix = x := rfl

theorem read_ofFn {s : List Nat} (f : List Nat → α) (hst : StretchesTo s t) (h : ix ∈ indices t) :
    (ofFn s f).read ix = f (project s ix) := get_ofFn f (project_mem_indices hst h)

theorem read_self {x : Tensor α} (h : ix ∈ indices x.shape) : x.read ix = x.get ix := by
  rw [read, project_self h]

theorem read_project {x : Tensor α} {s : List Nat} (hx : StretchesTo x.shape s)
    (hst : StretchesTo s t) (h : ix ∈ indices t) : x.read (project s ix) = x.read ix := by
  rw [read, read, project_project hx hst h]

theorem read_map {x : Tensor α} (f : α → β) (hx : StretchesTo x.shape t) (h : ix ∈ indices t) :
    (x.map f).read ix = f (x.read ix) := get_map f (project_mem_indices hx h)

/--
**Joining element by element.**

Two tensors that stretch to a common shape can be joined. The result has their joint shape, and at
an index of any larger shape it has the value of the function on what the two have there.
-/
theorem exists_zipWith (f : α → β → γ) {x : Tensor α} {y : Tensor β} {k : List Nat}
    (hx : StretchesTo x.shape k) (hy : StretchesTo y.shape k) :
    ∃ z, zipWith f x y = .ok z ∧ IsJoint [x.shape, y.shape] z.shape ∧
      ∀ t, StretchesTo z.shape t → ∀ ix ∈ indices t, z.read ix = f (x.read ix) (y.read ix) := by
  obtain ⟨u, hu, hjoint⟩ := exists_jointShape hx hy
  have hxu : StretchesTo x.shape u := hjoint.stretches _ (by simp)
  have hyu : StretchesTo y.shape u := hjoint.stretches _ (by simp)
  refine ⟨ofFn u fun ix => f (x.read ix) (y.read ix), by simp [zipWith, hu], hjoint, ?_⟩
  intro t hzt ix hix
  have hut : StretchesTo u t := hzt
  rw [read_ofFn _ hut hix, read_project hxu hut hix, read_project hyu hut hix]

end

end Formula.Tensor
