import Formula.Proofs.Double.Fraction
import Formula.Proofs.Statistic.Ascending
import Formula.Statistic.Percentile

/-!
# Percentiles are order statistics

The position of a fraction is between the first place of a list and its last one, so there is an
element at or below it and one at or above it, and these are the same one or neighbours
(`exists_atPosition`). Which numbers they are depends on the ascending order only, and not on how it
was found (`Agree.atFraction`).

This holds of lists with up to `2 ^ 53 + 3` elements. With one more, the last place is rounded up
when it becomes a double, and there is no element at the fraction one (`percentile_one_of_length`).
Between two places the result is computed in doubles, and the part of the way there is exact; the
products and the sum are rounded.

Main statement: `percentile_order_statistic`.
-/

namespace Formula.Statistic

/-! ## Results that agree -/

/-- The same number, or the same error. -/
inductive Agree {ε : Type} : Except ε Double → Except ε Double → Prop where
  | ok {v w : Double} (h : v.Same w) : Agree (.ok v) (.ok w)
  | error (e : ε) : Agree (.error e) (.error e)

/-- From the integers next to a position on, the elements there are taken. -/
theorem atPosition_eq {pos : Double} {lo hi : Int} (h : neighbours pos = .ok (lo, hi))
    (ordered : List Double) :
    atPosition ordered pos = (elementAt ordered lo).mapError .index >>= fun low =>
      if lo = hi then .ok low
      else (elementAt ordered hi).mapError .index >>= fun high =>
        .ok (interpolate low high (pos.sub (.ofInt lo))) := by
  rw [atPosition, h]
  rfl

namespace Agree

theorem mapError {ε ε' : Type} {a b : Except ε Double} (h : Agree a b) (f : ε → ε') :
    Agree (a.mapError f) (b.mapError f) := by
  cases h with
  | ok h => exact .ok h
  | error e => exact .error (f e)

theorem bind {ε : Type} {a b : Except ε Double} {f g : Double → Except ε Double} (h : Agree a b)
    (hfg : ∀ v w, v.Same w → Agree (f v) (g w)) : Agree (a >>= f) (b >>= g) := by
  cases h with
  | ok h => exact hfg _ _ h
  | error e => exact .error e

variable {xs ys : List Double} (h : Alike xs ys)

include h

theorem elementAt (i : Int) : Agree (elementAt xs i) (elementAt ys i) := by
  unfold Formula.elementAt
  rw [h.length_eq]
  obtain ⟨place, hplace⟩ : ∃ place, (if i < 0 then i + (ys.length : Int) else i) = place := ⟨_, rfl⟩
  simp only [hplace]
  split
  · exact .error _
  split
  · exact .error _
  obtain ⟨hx, hy⟩ | ⟨x, y, hx, hy, hxy⟩ := h.getElem? place.toNat
  · rw [hx, hy]
    exact .error _
  · rw [hx, hy]
    exact .ok hxy

/-- **What is at a position depends on the numbers in order only.** -/
theorem atPosition (pos : Double) : Agree (atPosition xs pos) (atPosition ys pos) := by
  cases hnext : neighbours pos with
  | error e =>
    rw [Statistic.atPosition, Statistic.atPosition, hnext]
    exact .error e
  | ok next =>
    obtain ⟨lo, hi⟩ := next
    rw [atPosition_eq hnext, atPosition_eq hnext]
    refine ((elementAt h lo).mapError _).bind fun low low' hlow => ?_
    split
    · exact .ok hlow
    · refine ((elementAt h hi).mapError _).bind fun high high' hhigh => ?_
      exact .ok ((hlow.mul _).add (hhigh.mul _))

/-- **What is at a fraction depends on the numbers in order only.** -/
theorem atFraction (q : Double) : Agree (atFraction xs q) (atFraction ys q) := by
  have hmany : ∀ {zs : List Double}, (∀ z, zs ≠ [z]) →
      Statistic.atFraction zs q = Statistic.atPosition zs (position zs.length q) := by
    intro zs hzs
    unfold Statistic.atFraction
    split
    · next z => exact absurd rfl (hzs z)
    · rfl
  by_cases hone : xs.length = 1
  · obtain ⟨x, rfl⟩ := List.length_eq_one_iff.mp hone
    obtain ⟨y, rfl⟩ := List.length_eq_one_iff.mp (h.length_eq ▸ hone)
    exact .ok (Double.same_iff_rank?.mpr (List.cons.inj h).1)
  · have hx : ∀ z, xs ≠ [z] := fun z hz => hone (by rw [hz]; rfl)
    have hy : ∀ z, ys ≠ [z] := fun z hz => hone (by rw [h.length_eq, hz]; rfl)
    rw [hmany hx, hmany hy, h.length_eq]
    exact atPosition h _

end Agree

/-! ## Elements at places -/

theorem elementAt_natCast {α : Type} {xs : List α} {k : Nat} {x : α} (hk : k < 0x8000000000000000)
    (hx : xs[k]? = some x) : elementAt xs k = .ok x := by
  have hlow : ¬ ((k : Int) < -indexBound ∨ indexBound ≤ (k : Int)) := by
    unfold indexBound
    omega
  have hneg : ¬ (k : Int) < 0 := by omega
  unfold elementAt
  simp only [if_neg hlow, if_neg hneg, Int.toNat_natCast, hx]

theorem neighbours_eq {pos : Double} (h : pos.isFinite = true) :
    neighbours pos = .ok (⌊pos.rational⌋, ⌈pos.rational⌉) := by
  rw [neighbours, Double.floor?_eq h, Double.ceil?_eq h]

/-- A number is the element at a position, or where the position is between two places, what lies
between the elements there. The part of the way from the first to the second is exact. -/
inductive IsAt (ordered : List Double) (pos v : Double) : Prop where
  | element (k : Nat) (x : Double) (hpos : pos.rational = k) (hx : ordered[k]? = some x)
    (hv : v.Same x)
  | between (k : Nat) (low high part : Double) (hbelow : k < pos.rational)
    (habove : pos.rational < k + 1) (hlow : ordered[k]? = some low)
    (hhigh : ordered[k + 1]? = some high) (hfinite : part.isFinite = true)
    (hpart : part.rational = pos.rational - k) (hv : v.Same (interpolate low high part))

/-- **At a position within the list there is an element, or two neighbours.** -/
theorem exists_atPosition {ordered : List Double} {pos : Double} {n : Nat}
    (hlength : ordered.length = n + 1) (hn : n < 0x8000000000000000) (hpos : pos.isFinite = true)
    (hlow : 0 ≤ pos.rational) (hhigh : pos.rational ≤ n) :
    ∃ v, atPosition ordered pos = .ok v ∧ IsAt ordered pos v := by
  obtain ⟨k, hk⟩ : ∃ k : Nat, ⌊pos.rational⌋ = k :=
    Int.eq_ofNat_of_zero_le (Int.floor_nonneg.mpr hlow)
  have hkpos : (k : ℚ) ≤ pos.rational := by
    rw [← Int.cast_natCast, ← hk]
    exact Int.floor_le _
  have hposk : pos.rational < k + 1 := by
    rw [← Int.cast_natCast k, ← hk]
    exact Int.lt_floor_add_one _
  have hkn : k ≤ n := by exact_mod_cast hkpos.trans hhigh
  obtain ⟨low, hklow⟩ : ∃ low, ordered[k]? = some low :=
    ⟨_, List.getElem?_eq_getElem (by omega)⟩
  have hatlow := elementAt_natCast (by omega) hklow
  rcases hkpos.lt_or_eq with hbelow | hequal
  · -- between two places
    have hceil : ⌈pos.rational⌉ = ((k + 1 : Nat) : Int) := by
      rw [Int.ceil_eq_iff]
      push_cast
      exact ⟨by linarith, hposk.le⟩
    have hkn' : k < n := by exact_mod_cast hbelow.trans_le hhigh
    obtain ⟨high, hkhigh⟩ : ∃ high, ordered[k + 1]? = some high :=
      ⟨_, List.getElem?_eq_getElem (by omega)⟩
    have hathigh := elementAt_natCast (by omega) hkhigh
    have hne : ¬ (k : Int) = ((k + 1 : Nat) : Int) := by omega
    obtain ⟨hfinite, hpart⟩ := Double.rational_sub_ofNat hpos hbelow hposk
    refine ⟨interpolate low high (pos.sub (.ofNat k)), ?_,
      .between k low high _ hbelow hposk hklow hkhigh hfinite hpart (.refl _)⟩
    rw [atPosition_eq (neighbours_eq hpos), hk, hceil, hatlow, hathigh, ← Double.ofInt_natCast]
    simp only [if_neg hne]
    rfl
  · -- at a place
    have hceil : ⌈pos.rational⌉ = (k : Int) := by rw [← hequal, Int.ceil_natCast]
    refine ⟨low, ?_, .element k low hequal.symm hklow (.refl _)⟩
    rw [atPosition_eq (neighbours_eq hpos), hk, hceil, hatlow]
    exact if_pos rfl

/-- **An ascending order that was found in another way has the same numbers at each position.** -/
theorem IsAt.alike {xs ys : List Double} {pos v : Double} (h : IsAt xs pos v) (hxy : Alike xs ys) :
    IsAt ys pos v := by
  have helement : ∀ {k : Nat} {x : Double}, xs[k]? = some x →
      ∃ y, ys[k]? = some y ∧ x.Same y := by
    intro k x hx
    obtain ⟨hnone, -⟩ | ⟨x', y, hx', hy, hsame⟩ := hxy.getElem? k
    · rw [hx] at hnone
      cases hnone
    · rw [hx] at hx'
      cases hx'
      exact ⟨y, hy, hsame⟩
  cases h with
  | element k x hpos hx hv =>
    obtain ⟨y, hy, hsame⟩ := helement hx
    exact .element k y hpos hy (hv.trans hsame)
  | between k low high part hbelow habove hlow hhigh hfinite hpart hv =>
    obtain ⟨low', hlow', hsamelow⟩ := helement hlow
    obtain ⟨high', hhigh', hsamehigh⟩ := helement hhigh
    exact .between k low' high' part hbelow habove hlow' hhigh' hfinite hpart
      (hv.trans ((hsamelow.mul _).add (hsamehigh.mul _)))

/-! ## Fractions -/

theorem position_succ (n : Nat) (q : Double) : position (n + 1) q = (Double.ofNat n).mul q := by
  rw [position, Int.natCast_add, Int.natCast_one, Int.add_sub_cancel, Double.ofInt_natCast]

/-- **At a fraction of a list there is an element, or two neighbours.** -/
theorem exists_atFraction {ordered : List Double} (hne : ordered ≠ [])
    (hlength : ordered.length ≤ 0x20000000000003) {q : Double} (hq : q.IsFraction) :
    (position ordered.length q).isFinite = true ∧
      ∃ v, atFraction ordered q = .ok v ∧ IsAt ordered (position ordered.length q) v := by
  obtain ⟨n, hn⟩ : ∃ n, ordered.length = n + 1 :=
    Nat.exists_eq_add_one.mpr (List.length_pos_iff.mpr hne)
  obtain ⟨hfinite, hlow, hhigh⟩ := Double.rational_mul_fraction (n := n) (by omega) hq
  rw [← position_succ] at hfinite hlow hhigh
  refine ⟨hn ▸ hfinite, ?_⟩
  unfold atFraction
  split
  · next x =>
    obtain rfl : n = 0 := (Nat.succ.inj hn).symm
    exact ⟨x, rfl, .element 0 x (le_antisymm hhigh hlow) rfl (.refl x)⟩
  · rw [hn]
    exact exists_atPosition hn (by omega) hfinite hlow hhigh

/-- Half way between the second and the third. -/
example : atFraction [.one, .ofNat 2, .ofNat 3, .ofNat 4] (Double.one.div (.ofNat 2))
    = .ok ((Double.ofNat 5).div (.ofNat 2)) := by
  decide +kernel

theorem elementAt_nil {α : Type} {i : Int} (hlow : -indexBound ≤ i) (hhigh : i < indexBound) :
    elementAt ([] : List α) i = .error .outOfRange := by
  have hrange : ¬ (i < -indexBound ∨ indexBound ≤ i) := by omega
  simp [elementAt, if_neg hrange]

/-- **An empty list has no element at a fraction.** The place of its last one would be `-1`. -/
theorem percentile_nil {q : Double} (hq : q.IsFraction) :
    percentile [] q = .error (.index .outOfRange) := by
  obtain ⟨hfinite, hlow, hhigh⟩ := Double.rational_mul_neg_one hq
  obtain ⟨pos, hpos⟩ : ∃ pos, (Double.ofInt (-1)).mul q = pos := ⟨_, rfl⟩
  rw [hpos] at hfinite hlow hhigh
  have hbelow : -1 ≤ ⌊pos.rational⌋ := Int.le_floor.mpr (by exact_mod_cast hlow)
  have habove : ⌊pos.rational⌋ ≤ 0 := by exact_mod_cast (Int.floor_le pos.rational).trans hhigh
  have hnone : elementAt ([] : List Double) ⌊pos.rational⌋ = .error .outOfRange :=
    elementAt_nil (by unfold indexBound; omega) (by unfold indexBound; omega)
  have hsort : sort [] = [] := List.mergeSort_nil
  rw [percentile, hsort]
  show atPosition [] ((Double.ofInt (-1)).mul q) = _
  rw [hpos, atPosition_eq (neighbours_eq hfinite), hnone]
  rfl

/-- **With one element more, the place of the last one is rounded up**, and at the fraction one
there is nothing. -/
theorem percentile_one_of_length {xs : List Double} (hxs : ∀ x ∈ xs, x.isNaN = false)
    (hlength : xs.length = 0x20000000000004) :
    percentile xs .one = .error (.index .outOfRange) := by
  have hsort : (sort xs).length = 0x20000000000004 := by
    rw [(perm_sort hxs).length_eq, hlength]
  have hposition : neighbours (position 0x20000000000004 .one)
      = .ok (((0x20000000000004 : Nat) : Int), ((0x20000000000004 : Nat) : Int)) := by
    decide +kernel
  have hnone : elementAt (sort xs) ((0x20000000000004 : Nat) : Int) = .error .outOfRange := by
    have hbehind : (sort xs)[0x20000000000004]? = none := List.getElem?_eq_none hsort.le
    unfold elementAt
    simp [indexBound, hbehind]
  rw [percentile]
  unfold atFraction
  split
  · next x h =>
    rw [h] at hsort
    cases hsort
  · rw [hsort, atPosition_eq hposition, hnone]
    rfl

/--
**A percentile is an order statistic, or lies between two neighbouring ones.**

The list is without NaN and the fraction between zero and one. In an empty list there is no such
element. In any other list there is one, if the list has at most `2 ^ 53 + 3` elements. It is the
number at the position `(n - 1) * q` in ascending order, counted from 0, and where this product is
no integer, what lies between the numbers at the two places next to it. The order of the list makes
no difference but for the sign of a zero.
-/
theorem percentile_order_statistic {xs : List Double} {q : Double}
    (hxs : ∀ x ∈ xs, x.isNaN = false) (hq : q.IsFraction) :
    (xs = [] → percentile xs q = .error (.index .outOfRange)) ∧
    (∀ ys : List Double, ys.Perm xs → Agree (percentile ys q) (percentile xs q)) ∧
    (xs ≠ [] → xs.length ≤ 0x20000000000003 →
      (position xs.length q).isFinite = true ∧
      ∃ v, percentile xs q = .ok v ∧
        ∀ ordered : List Double, ordered.Perm xs → Ascending ordered →
          IsAt ordered (position xs.length q) v) := by
  refine ⟨?_, ?_, ?_⟩
  · rintro rfl
    exact percentile_nil hq
  · intro ys hys
    exact Agree.atFraction (alike_sort_of_perm hxs hys) q
  · intro hne hlength
    have hsort := (perm_sort hxs).length_eq
    have hsortne : sort xs ≠ [] := fun h => hne (by simpa [h] using hsort.symm)
    obtain ⟨hfinite, v, hv, hat⟩ := exists_atFraction hsortne (hsort.le.trans hlength) hq
    rw [hsort] at hfinite hat
    exact ⟨hfinite, v, hv, fun ordered hordered hascending =>
      hat.alike (alike_sort hxs hordered hascending)⟩

/-- The median of four numbers lies between the second and the third. -/
theorem percentile_order_statistic_median :
    (∀ x ∈ [Double.ofNat 3, .zero, .ofNat 2, .one], x.isNaN = false) ∧
      (Double.one.div (.ofNat 2)).IsFraction ∧
      ∃ v, percentile [.ofNat 3, .zero, .ofNat 2, .one] (Double.one.div (.ofNat 2)) = .ok v ∧
        IsAt [.zero, .one, .ofNat 2, .ofNat 3] (position 4 (Double.one.div (.ofNat 2))) v := by
  have hxs : ∀ x ∈ [Double.ofNat 3, .zero, .ofNat 2, .one], x.isNaN = false := by decide
  have hq : (Double.one.div (.ofNat 2)).IsFraction := ⟨by decide +kernel, by decide +kernel⟩
  obtain ⟨-, -, h⟩ := percentile_order_statistic hxs hq
  obtain ⟨-, v, hv, hat⟩ := h (List.cons_ne_nil _ _) (by decide)
  refine ⟨hxs, hq, v, hv, hat _ ?_ ?_⟩
  · decide +kernel
  · unfold Ascending
    decide +kernel

/-- A list without NaN that has no element at the fraction one; and two equal numbers, the least
ones above zero, with nothing but zero half way between them. -/
theorem percentile_rounded :
    ((List.replicate 0x20000000000004 Double.zero ≠ [] ∧
        ∀ x ∈ List.replicate 0x20000000000004 Double.zero, x.isNaN = false) ∧
      Double.one.IsFraction ∧
      percentile (List.replicate 0x20000000000004 .zero) .one = .error (.index .outOfRange)) ∧
    (Double.one.div (.ofNat 2)).IsFraction ∧
      neighbours (position 2 (Double.one.div (.ofNat 2))) = .ok (0, 1) ∧
      percentile [.ofBits 1, .ofBits 1] (Double.one.div (.ofNat 2)) = .ok .zero ∧
      ¬Double.zero.Same (.ofBits 1) := by
  have hlong : (List.replicate 0x20000000000004 Double.zero).length = 0x20000000000004 :=
    List.length_replicate
  have hzeros : ∀ x ∈ List.replicate 0x20000000000004 Double.zero, x.isNaN = false := by
    intro x hx
    rw [List.eq_of_mem_replicate hx]
    rfl
  have hne : List.replicate 0x20000000000004 Double.zero ≠ [] := by
    intro hnil
    rw [hnil] at hlong
    cases hlong
  have hone : Double.one.IsFraction := ⟨by decide +kernel, by decide +kernel⟩
  have hhalf : (Double.one.div (.ofNat 2)).IsFraction := ⟨by decide +kernel, by decide +kernel⟩
  have hsort : sort [.ofBits 1, .ofBits 1] = [.ofBits 1, .ofBits 1] :=
    List.perm_replicate.mp (perm_sort (by decide) : (sort _).Perm (List.replicate 2 (.ofBits 1)))
  refine ⟨⟨⟨hne, hzeros⟩, hone, percentile_one_of_length hzeros hlong⟩, hhalf, ?_, ?_, ?_⟩
  · decide +kernel
  · rw [percentile, hsort]
    decide +kernel
  · rw [Double.same_iff_rank?]
    decide

end Formula.Statistic
