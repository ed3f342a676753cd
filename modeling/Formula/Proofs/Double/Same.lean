import Formula.Double.Arithmetic
import Formula.Proofs.Double.Order

/-!
# The same number

Two doubles are the same number if they compare as equal; NaN is the same as itself. They are then
also equal as terms, but for the sign of a zero (`same_iff`). Sums and products do not tell the same
numbers apart: they can differ in the sign of a zero again, and in nothing else (`Same.add`,
`Same.mul`).
-/

namespace Formula.Double

/-- Equal as numbers, or both NaN. -/
def Same (x y : Double) : Prop := x.equals y = true ∨ x.isNaN = true ∧ y.isNaN = true

/-- The same numbers are at the same place on the line. -/
theorem same_iff_rank? {x y : Double} : x.Same y ↔ x.rank? = y.rank? := by
  cases x with
  | nan => cases y <;> simp [Same, equals, compares, isNaN, rank?]
  | num s m => cases y <;> simp [Same, equals, compares, isNaN, rank?]

@[refl]
theorem Same.refl (x : Double) : x.Same x := same_iff_rank?.mpr rfl

theorem Same.trans {x y z : Double} (h : x.Same y) (h' : y.Same z) : x.Same z :=
  same_iff_rank?.mpr ((same_iff_rank?.mp h).trans (same_iff_rank?.mp h'))

theorem same_zero (s t : Bool) : (num s .zero).Same (num t .zero) := by
  rw [same_iff_rank?]
  cases s <;> cases t <;> rfl

/-- **The same numbers differ in the sign of a zero at most.** -/
theorem same_iff {x y : Double} :
    x.Same y ↔ x = y ∨ ∃ s t, x = num s .zero ∧ y = num t .zero := by
  constructor
  · intro h
    have hrank := same_iff_rank?.mp h
    cases x with
    | nan =>
      cases y with
      | nan => exact .inl rfl
      | num t n => cases hrank
    | num s m =>
      cases y with
      | nan => cases hrank
      | num t n =>
        have hrank' : (if s then -(m.place : Int) else m.place)
            = if t then -(n.place : Int) else n.place := Option.some.inj hrank
        have hplace : m.place = n.place := by
          split at hrank' <;> split at hrank' <;> omega
        obtain rfl : m = n := by
          rw [← Magnitude.ofPlace_place m, hplace, Magnitude.ofPlace_place]
        by_cases hsign : s = t
        · exact .inl (by rw [hsign])
        · -- only zero is its own opposite
          have hopposite : (m.place : Int) = -(m.place : Int) := by
            cases s <;> cases t
            · exact absurd rfl hsign
            · exact hrank'
            · exact hrank'.symm
            · exact absurd rfl hsign
          obtain rfl : m = .zero := by
            rw [← Magnitude.ofPlace_place m, show m.place = 0 by omega]
            rfl
          exact .inr ⟨s, t, rfl, rfl⟩
  · rintro (rfl | ⟨s, t, rfl, rfl⟩)
    · rfl
    · exact same_zero s t

/-! ## Sums -/

theorem same_ofUnits (s t : Bool) (u : Int) : (ofUnits s u).Same (ofUnits t u) := by
  unfold ofUnits
  split
  · exact same_zero s t
  · rfl

theorem signedUnits_zero (s : Bool) : signedUnits s .zero = 0 := by
  cases s <;> simp [signedUnits, Magnitude.units_zero]

/-- The sign of a zero plays no part in a sum, on the left or on the right. -/
theorem same_add_zero (s t : Bool) (y : Double) :
    (add (num s .zero) y).Same (add (num t .zero) y) ∧
      (add y (num s .zero)).Same (add y (num t .zero)) := by
  have hne : Magnitude.zero ≠ .top := by decide
  cases y with
  | nan => exact ⟨.refl _, .refl _⟩
  | num u n =>
    by_cases hn : n = .top
    · simp only [add, if_neg hne, if_pos hn]
      exact ⟨.refl _, .refl _⟩
    · simp only [add, if_neg hne, if_neg hn, signedUnits_zero]
      exact ⟨same_ofUnits _ _ _, same_ofUnits _ _ _⟩

/-- **Sums of the same numbers are the same.** -/
theorem Same.add {x x' y y' : Double} (hx : x.Same x') (hy : y.Same y') :
    (x.add y).Same (x'.add y') := by
  have hleft : (x.add y).Same (x'.add y) := by
    obtain rfl | ⟨s, t, rfl, rfl⟩ := same_iff.mp hx
    · rfl
    · exact (same_add_zero s t y).1
  have hright : (x'.add y).Same (x'.add y') := by
    obtain rfl | ⟨s, t, rfl, rfl⟩ := same_iff.mp hy
    · rfl
    · exact (same_add_zero s t x').2
  exact hleft.trans hright

/-! ## Products -/

/-- **Multiples of the same numbers are the same.** -/
theorem Same.mul {x x' : Double} (h : x.Same x') (y : Double) : (x.mul y).Same (x'.mul y) := by
  obtain rfl | ⟨s, t, rfl, rfl⟩ := same_iff.mp h
  · rfl
  cases y with
  | nan => rfl
  | num u n =>
    by_cases hn : n = .top
    · simp only [Double.mul, hn, or_true, true_or, if_true]
      rfl
    · have hne : Magnitude.zero ≠ .top := by decide
      have hround := Magnitude.ofRatio_zero Magnitude.unitsPerOne_pos
      simp only [Double.mul, hn, hne, or_self, if_false, Magnitude.units_zero, Nat.zero_mul, hround]
      exact same_zero _ _

end Formula.Double
