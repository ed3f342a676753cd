import Mathlib.Order.Monotone.Basic
import Formula.Double.Basic

/-!
# The order of magnitudes

Places are numbered in the order of their values: from each place to the next one the value grows,
within a block as well as across its end (`units_le_units_iff`). So doubles can be compared by
their places. A value that is there is not rounded (`ofRatio_units`), and the integers below
`2 ^ 53` are there (`units_ofNat`).
-/

namespace Formula

namespace Magnitude

/-! ## Values in order -/

/-- The value at a place, whether or not there is one. -/
def unitsAt (p : Nat) : Nat :=
  (p - (p / 0x10000000000000 - 1) * 0x10000000000000) <<< (p / 0x10000000000000 - 1)

/-- Each value is below the next one. -/
theorem unitsAt_lt_unitsAt_succ (p : Nat) : unitsAt p < unitsAt (p + 1) := by
  rw [unitsAt, unitsAt, Nat.shiftLeft_eq, Nat.shiftLeft_eq]
  obtain ⟨q, hq⟩ : ∃ q, p / 0x10000000000000 = q := ⟨_, rfl⟩
  by_cases hblock : (p + 1) / 0x10000000000000 = q
  · rw [hblock, hq]
    exact Nat.mul_lt_mul_of_pos_right (by omega) (Nat.two_pow_pos _)
  · -- The next place begins a block, in which neighbours are twice as far apart.
    have hnext : (p + 1) / 0x10000000000000 = q + 1 := by omega
    rw [hnext, hq]
    cases q with
    | zero => omega
    | succ q =>
      have hs : p - (q + 1 - 1) * 0x10000000000000 = 0x1fffffffffffff := by omega
      have hs' : p + 1 - (q + 1 + 1 - 1) * 0x10000000000000 = 0x10000000000000 := by omega
      rw [hs, hs', Nat.add_sub_cancel, Nat.add_sub_cancel, Nat.pow_succ]
      have hpos := Nat.two_pow_pos q
      omega

theorem strictMono_unitsAt : StrictMono unitsAt := strictMono_nat_of_lt_succ unitsAt_lt_unitsAt_succ

/-- **A greater place has a greater value.** -/
theorem units_le_units_iff {m n : Magnitude} : m.units ≤ n.units ↔ m.place ≤ n.place :=
  strictMono_unitsAt.le_iff_le

theorem units_zero : units zero = 0 := by decide

theorem unitsPerOne_pos : 0 < unitsPerOne := by decide +kernel

/-! ## Exact values -/

/-- A quotient without remainder is not rounded. -/
theorem roundHalfEven_mul (a : Nat) {den : Nat} (hden : 0 < den) :
    roundHalfEven (a * den) den = a := by
  unfold roundHalfEven
  simp only [Nat.mul_div_cancel a hden, Nat.mul_mod_left]
  exact if_pos hden

/-- Beyond the first block, the significand has 53 binary digits. -/
theorem significand_bounds {m : Magnitude} (h : 0x10000000000000 ≤ m.place) :
    0x10000000000000 ≤ m.significand ∧ m.significand < 0x20000000000000 := by
  unfold significand shift
  omega

/-- The shift can be read off the value. -/
theorem log2_units_sub (m : Magnitude) : Nat.log2 m.units - 52 = m.shift := by
  rcases Nat.lt_or_ge m.place 0x10000000000000 with h | h
  · have hshift : m.shift = 0 := by
      unfold shift
      omega
    have hunits : m.units < 2 ^ 52 := by
      rw [units, hshift, Nat.shiftLeft_zero, significand, hshift]
      omega
    by_cases hzero : m.units = 0
    · rw [hzero, hshift, Nat.log2_zero]
    · have hlog := (Nat.log2_lt hzero).mpr hunits
      omega
  · obtain ⟨hlow, hhigh⟩ := significand_bounds h
    have hpow := Nat.two_pow_pos m.shift
    have hunits : m.units = m.significand * 2 ^ m.shift := Nat.shiftLeft_eq _ _
    have hlog : Nat.log2 m.units = 52 + m.shift := by
      rw [hunits, Nat.log2_eq_iff (Nat.ne_of_gt (Nat.mul_pos (by omega) hpow)),
        show 52 + m.shift + 1 = 53 + m.shift by omega, Nat.pow_add, Nat.pow_add]
      exact ⟨Nat.mul_le_mul_right _ hlow, Nat.mul_lt_mul_of_pos_right hhigh hpow⟩
    omega

/-- **A place is the nearest to its own value.** -/
theorem ofRatio_units (m : Magnitude) {den : Nat} (hden : 0 < den) :
    ofRatio (m.units * den) den = m := by
  have hshift := m.log2_units_sub
  have hround : roundHalfEven (m.units * den) (den <<< m.shift) = m.significand := by
    rw [units, Nat.shiftLeft_eq, Nat.shiftLeft_eq, Nat.mul_assoc, Nat.mul_comm (2 ^ m.shift) den]
    exact roundHalfEven_mul _ (Nat.mul_pos hden (Nat.two_pow_pos _))
  have hplace : m.shift * 0x10000000000000 + m.significand = m.place := by
    unfold significand shift
    omega
  rw [ofRatio, Nat.mul_div_cancel _ hden]
  simp only [hshift, hround, hplace]
  exact ofPlace_place m

theorem ofRatio_zero {den : Nat} (hden : 0 < den) : ofRatio 0 den = zero := by
  have hround := zero.ofRatio_units hden
  rwa [units_zero, Nat.zero_mul] at hround

/-! ## Integers -/

theorem mul_unitsPerOne (n : Nat) : n * unitsPerOne = n <<< 1074 := by
  have hshift : ∀ e, n * 1 <<< e = n <<< e := by
    intro e
    rw [Nat.shiftLeft_eq, Nat.shiftLeft_eq, Nat.one_mul]
  exact hshift 1074

/-- A positive integer is not rounded to zero. -/
theorem ofNat_ne_zero {n : Nat} (hn : 0 < n) : ofNat n ≠ zero := by
  have hshift : ∀ e, e ≤ Nat.log2 (n <<< e) := by
    intro e
    rw [Nat.shiftLeft_eq, Nat.le_log2 (Nat.ne_of_gt (Nat.mul_pos hn (Nat.two_pow_pos e)))]
    exact Nat.le_mul_of_pos_left _ hn
  have hlog := hshift 1074
  rw [← mul_unitsPerOne] at hlog
  intro h
  have hplace : (ofNat n).place = 0 := congrArg place h
  rw [ofNat, ofRatio, Nat.div_one] at hplace
  simp only [ofPlace] at hplace
  omega

/-- A positive integer below `2 ^ 53` is a value. -/
theorem exists_units_eq {n : Nat} (hn : n ≠ 0) (h : n < 0x20000000000000) :
    ∃ m : Magnitude, m.units = n * unitsPerOne := by
  obtain ⟨k, hk⟩ : ∃ k, n.log2 = k := ⟨_, rfl⟩
  obtain ⟨hlow, hhigh⟩ := (Nat.log2_eq_iff hn).mp hk
  have hk53 : k < 53 := hk ▸ (Nat.log2_lt hn).mpr h
  -- The significand, with 53 binary digits.
  obtain ⟨a, ha⟩ : ∃ a, n * 2 ^ (52 - k) = a := ⟨_, rfl⟩
  have halow : 0x10000000000000 ≤ a := by
    rw [← ha, show 0x10000000000000 = 2 ^ k * 2 ^ (52 - k) by
      rw [← Nat.pow_add, show k + (52 - k) = 52 by omega]]
    exact Nat.mul_le_mul_right _ hlow
  have hahigh : a < 0x20000000000000 := by
    rw [← ha, show 0x20000000000000 = 2 ^ (k + 1) * 2 ^ (52 - k) by
      rw [← Nat.pow_add, show k + 1 + (52 - k) = 53 by omega]]
    exact Nat.mul_lt_mul_of_pos_right hhigh (Nat.two_pow_pos _)
  refine ⟨⟨(k + 1022) * 0x10000000000000 + a, by omega⟩, ?_⟩
  have hshift : ((k + 1022) * 0x10000000000000 + a) / 0x10000000000000 - 1 = k + 1022 := by omega
  simp only [units, significand, shift, hshift, Nat.add_sub_cancel_left]
  have hexp : 52 - k + (k + 1022) = 1074 := by omega
  rw [← ha, mul_unitsPerOne, Nat.shiftLeft_eq, Nat.shiftLeft_eq, Nat.mul_assoc, ← Nat.pow_add,
    hexp]

/-- **Integers below `2 ^ 53` are not rounded.** -/
theorem units_ofNat {n : Nat} (h : n < 0x20000000000000) : (ofNat n).units = n * unitsPerOne := by
  by_cases hn : n = 0
  · rw [hn, Nat.zero_mul]
    decide +kernel
  · obtain ⟨m, hm⟩ := exists_units_eq hn h
    have hround := m.ofRatio_units Nat.one_pos
    rw [Nat.mul_one, hm] at hround
    rw [ofNat, hround, hm]

end Magnitude

end Formula
