import Mathlib.Data.Rat.Floor
import Formula.Double.Arithmetic
import Formula.Proofs.Double.Nearest

/-!
# A fraction of a number

A fraction of an integer, rounded, is not above the integer, because the integer is a value and
rounding keeps the order (`rational_mul_fraction`). The first integer that is rounded up is
`2 ^ 53 + 3`; up to the one before, this holds of integers that are no values as well.

The integers next to a double can be computed from its exact value (`floor?_eq`, `ceil?_eq`), and
the part behind the integer below is not rounded (`rational_sub_ofNat`): it is a multiple of the
distance of the double from its neighbours, and smaller than the double.
-/

namespace Formula

namespace Magnitude

/-! ## Rounding keeps the order -/

/-- **A quotient that is not above a value is not rounded above it.** -/
theorem units_ofRatio_le {num den : Nat} {m : Magnitude} (hden : 0 < den)
    (h : num ≤ m.units * den) : (ofRatio num den).units ≤ m.units := by
  have hnear : (ofRatio num den).distance num den ≤ m.distance num den :=
    (isNearest_ofRatio num hden).le m
  by_contra hlt
  have habove : m.units * den < (ofRatio num den).units * den :=
    Nat.mul_lt_mul_of_pos_right (Nat.lt_of_not_le hlt) hden
  change (((ofRatio num den).units * den : Nat) - num : Int).natAbs
    ≤ ((m.units * den : Nat) - num : Int).natAbs at hnear
  omega

/-- **A quotient that is not below a value is not rounded below it.** -/
theorem units_le_ofRatio {num den : Nat} {m : Magnitude} (hden : 0 < den)
    (h : m.units * den ≤ num) : m.units ≤ (ofRatio num den).units := by
  have hnear : (ofRatio num den).distance num den ≤ m.distance num den :=
    (isNearest_ofRatio num hden).le m
  by_contra hlt
  have hbelow : (ofRatio num den).units * den < m.units * den :=
    Nat.mul_lt_mul_of_pos_right (Nat.lt_of_not_le hlt) hden
  change (((ofRatio num den).units * den : Nat) - num : Int).natAbs
    ≤ ((m.units * den : Nat) - num : Int).natAbs at hnear
  omega

/-- An integer up to `2 ^ 53 + 2` is not rounded up. -/
theorem units_ofNat_le {n : Nat} (h : n ≤ 0x20000000000002) :
    (ofNat n).units ≤ n * unitsPerOne := by
  rcases Nat.lt_or_ge n 0x20000000000000 with hn | hn
  · exact (units_ofNat hn).le
  · have hlast : n = 0x20000000000000 ∨ n = 0x20000000000001 ∨ n = 0x20000000000002 := by omega
    obtain rfl | rfl | rfl := hlast <;> decide +kernel

theorem ofNat_ne_top {n : Nat} (h : n ≤ 0x20000000000002) : ofNat n ≠ top := by
  intro htop
  have hle := (units_ofNat_le h).trans (Nat.mul_le_mul_right unitsPerOne h)
  rw [htop] at hle
  exact absurd hle (by decide +kernel)

/-! ## Values -/

/-- **A number with 53 binary digits is a value**, if its last digit is within the range. -/
theorem exists_units_eq_mul_two_pow {c t : Nat} (hc : c < 0x20000000000000) (ht : t ≤ 2045) :
    ∃ m : Magnitude, m ≠ top ∧ m.units = c * 2 ^ t := by
  induction t generalizing c with
  | zero =>
    refine ⟨⟨c, by omega⟩, ?_, ?_⟩
    · intro h
      have hplace : c = 0x7ff0000000000000 := congrArg place h
      omega
    · have hblock := unitsAt_block (t := 0) (Nat.le_of_lt hc) (.inl rfl)
      rwa [Nat.zero_mul, Nat.zero_add] at hblock
  | succ t ih =>
    rcases Nat.lt_or_ge c 0x10000000000000 with h | h
    · -- one binary digit more, and one step of the shift less
      obtain ⟨m, hm, hunits⟩ := ih (c := 2 * c) (by omega) (by omega)
      exact ⟨m, hm, by rw [hunits, Nat.pow_succ', Nat.mul_left_comm, Nat.mul_assoc]⟩
    · refine ⟨⟨(t + 1) * 0x10000000000000 + c, by omega⟩, ?_, ?_⟩
      · intro htop
        have hplace : (t + 1) * 0x10000000000000 + c = 0x7ff0000000000000 := congrArg place htop
        omega
      · exact unitsAt_block (Nat.le_of_lt hc) (.inr h)

theorem significand_lt (m : Magnitude) : m.significand < 0x20000000000000 := by
  unfold significand shift
  omega

theorem units_eq (m : Magnitude) : m.units = m.significand * 2 ^ m.shift := Nat.shiftLeft_eq _ _

theorem units_ofNat_one : (ofNat 1).units = unitsPerOne := by
  rw [units_ofNat (by decide), Nat.one_mul]

/-- One is a multiple of every smaller step. -/
theorem unitsPerOne_eq {e t : Nat} (h : e + t = 1074) : unitsPerOne = 2 ^ e * 2 ^ t := by
  rw [← Nat.pow_add, ← Nat.one_shiftLeft, h]
  rfl

/-- Beyond that the steps are multiples of one. -/
theorem unitsPerOne_dvd_units {m : Magnitude} (h : 1074 ≤ m.shift) : unitsPerOne ∣ m.units := by
  obtain ⟨e, he⟩ : ∃ e, 0 + e = 1074 := ⟨1074, rfl⟩
  have hone : unitsPerOne = 2 ^ e := by rw [unitsPerOne_eq he, Nat.pow_zero, Nat.one_mul]
  rw [hone, units_eq]
  exact Dvd.dvd.mul_left (Nat.pow_dvd_pow 2 (by omega)) _

/-- **The part behind the integer below is a value.** -/
theorem exists_units_eq_sub {m : Magnitude} {k : Nat} (hlow : k * unitsPerOne < m.units)
    (hhigh : m.units < (k + 1) * unitsPerOne) :
    k < 0x20000000000000 ∧ ∃ d : Magnitude, d ≠ top ∧ d.units + k * unitsPerOne = m.units := by
  have hsignificand := m.significand_lt
  -- between two integers, the steps are smaller than one
  have hshift : m.shift < 1074 := by
    by_contra hge
    obtain ⟨j, hj⟩ := unitsPerOne_dvd_units (Nat.le_of_not_lt hge)
    rw [hj, Nat.mul_comm unitsPerOne] at hlow hhigh
    have := Nat.lt_of_mul_lt_mul_right hlow
    have := Nat.lt_of_mul_lt_mul_right hhigh
    omega
  obtain ⟨e, he⟩ : ∃ e, e + m.shift = 1074 := ⟨1074 - m.shift, by omega⟩
  rw [unitsPerOne_eq he, ← Nat.mul_assoc, m.units_eq] at hlow ⊢
  have hpart : k * 2 ^ e < m.significand := Nat.lt_of_mul_lt_mul_right hlow
  have hle : k ≤ k * 2 ^ e := Nat.le_mul_of_pos_right k (Nat.two_pow_pos e)
  obtain ⟨d, htop, hd⟩ := exists_units_eq_mul_two_pow (c := m.significand - k * 2 ^ e)
    (t := m.shift) (by omega) (by omega)
  refine ⟨by omega, d, htop, ?_⟩
  rw [hd, ← Nat.add_mul, Nat.sub_add_cancel hpart.le]

theorem ne_top_of_units_le {m n : Magnitude} (h : m.units ≤ n.units) (hn : n ≠ top) : m ≠ top := by
  rintro rfl
  have hplace : top.place ≤ n.place := units_le_units_iff.mp h
  have hle : n.place ≤ top.place := n.place_le
  refine hn ?_
  rw [← ofPlace_place n, Nat.le_antisymm hle hplace, ofPlace_place]

theorem rational_le_iff {m : Magnitude} {r : ℚ} :
    m.rational ≤ r ↔ (m.units : ℚ) ≤ r * unitsPerOne :=
  div_le_iff₀ cast_unitsPerOne_pos

end Magnitude

namespace Double

/-! ## The integers next to a double -/

/-- The exact value, in units. -/
theorem units?_eq {x : Double} (h : x.isFinite = true) :
    ∃ u : Int, x.units? = some u ∧ x.rational = u / (Magnitude.unitsPerOne : Nat) := by
  cases x with
  | nan => cases h
  | num s m =>
    have hm : m ≠ .top := of_decide_eq_true h
    refine ⟨if s then -(m.units : Int) else m.units, if_neg hm, ?_⟩
    cases s with
    | false => simp [rational, Magnitude.rational]
    | true => simp [rational, Magnitude.rational, neg_div]

theorem fdiv_unitsPerOne (u : Int) :
    u.fdiv Magnitude.unitsPerOne = ⌊(u / (Magnitude.unitsPerOne : Nat) : ℚ)⌋ := by
  rw [Rat.floor_intCast_div_natCast, Int.fdiv_eq_ediv_of_nonneg _ (Int.natCast_nonneg _)]

theorem floor?_eq {x : Double} (h : x.isFinite = true) : x.floor? = some ⌊x.rational⌋ := by
  obtain ⟨u, hu, hr⟩ := units?_eq h
  rw [floor?, hu, hr, Option.map_some, fdiv_unitsPerOne]

theorem ceil?_eq {x : Double} (h : x.isFinite = true) : x.ceil? = some ⌈x.rational⌉ := by
  obtain ⟨u, hu, hr⟩ := units?_eq h
  rw [ceil?, hu, hr, Option.map_some, fdiv_unitsPerOne, Int.cast_neg, neg_div, Int.floor_neg,
    neg_neg]

theorem ofInt_natCast (n : Nat) : ofInt n = ofNat n := by
  rw [ofInt, ofNat, Int.natAbs_natCast, decide_eq_false (Int.not_lt.mpr (Int.natCast_nonneg n))]

/-! ## Multiplying by a fraction -/

/-- Between zero and one. -/
structure IsFraction (q : Double) : Prop where
  nonneg : zero.le q = true
  le_one : q.le one = true

/-- Only zero can be a fraction with a sign. -/
theorem IsFraction.exists_num {q : Double} (h : q.IsFraction) :
    ∃ s m, q = num s m ∧ m.units ≤ Magnitude.unitsPerOne ∧ m ≠ .top ∧ (s = true → m = .zero) := by
  obtain ⟨hnonneg, hle⟩ := h
  cases q with
  | nan => cases hnonneg
  | num s m =>
    have hzero : s = true → m = .zero := by
      rintro rfl
      have hplace : (0 : Int) ≤ -(m.place : Int) := of_decide_eq_true hnonneg
      rw [← Magnitude.ofPlace_place m, show m.place = 0 by omega]
      rfl
    have hunits : m.units ≤ (Magnitude.ofNat 1).units := by
      cases s with
      | true =>
        rw [hzero rfl]
        decide +kernel
      | false =>
        have hplace : (m.place : Int) ≤ (Magnitude.ofNat 1).place := of_decide_eq_true hle
        exact Magnitude.units_le_units_iff.mpr (Int.ofNat_le.mp hplace)
    have htop := Magnitude.ne_top_of_units_le hunits (Magnitude.ofNat_ne_top (by decide))
    rw [Magnitude.units_ofNat_one] at hunits
    exact ⟨s, m, rfl, hunits, htop, hzero⟩

/-- **A fraction of an integer** is between zero and the integer, rounding included. -/
theorem rational_mul_fraction {n : Nat} (hn : n ≤ 0x20000000000002) {q : Double}
    (hq : q.IsFraction) :
    ((ofNat n).mul q).isFinite = true ∧
      0 ≤ ((ofNat n).mul q).rational ∧ ((ofNat n).mul q).rational ≤ n := by
  obtain ⟨s, m, rfl, hle, hm, hzero⟩ := hq.exists_num
  have htop : Magnitude.ofNat n ≠ .top := Magnitude.ofNat_ne_top hn
  obtain ⟨r, hr⟩ : ∃ r, Magnitude.ofRatio ((Magnitude.ofNat n).units * m.units)
      Magnitude.unitsPerOne = r := ⟨_, rfl⟩
  have hproduct : (ofNat n).mul (num s m) = num s r := by
    simp only [mul, ofNat, htop, hm, or_self, if_false, Bool.false_bne, hr]
  have hrounded : r.units ≤ (Magnitude.ofNat n).units := by
    rw [← hr]
    exact Magnitude.units_ofRatio_le Magnitude.unitsPerOne_pos (Nat.mul_le_mul_left _ hle)
  have hrtop : r ≠ .top := Magnitude.ne_top_of_units_le hrounded htop
  have hrational : r.rational ≤ n := by
    rw [Magnitude.rational_le_iff, ← Nat.cast_mul, Nat.cast_le]
    exact hrounded.trans (Magnitude.units_ofNat_le hn)
  have hnonneg := r.rational_nonneg
  rw [hproduct]
  refine ⟨decide_eq_true hrtop, ?_⟩
  cases s with
  | false => exact ⟨hnonneg, hrational⟩
  | true =>
    have hvalue : r.rational = 0 := by
      rw [← hr, hzero rfl, Magnitude.units_zero, Nat.mul_zero,
        Magnitude.ofRatio_zero Magnitude.unitsPerOne_pos, Magnitude.rational_zero]
    show 0 ≤ -r.rational ∧ -r.rational ≤ n
    rw [hvalue, neg_zero]
    exact ⟨le_refl _, Nat.cast_nonneg n⟩

theorem isFinite_neg (x : Double) : x.neg.isFinite = x.isFinite := by
  cases x <;> rfl

theorem rational_neg (x : Double) : x.neg.rational = -x.rational := by
  rcases x with - | ⟨s, m⟩
  · exact neg_zero.symm
  · cases s with
    | false => rfl
    | true => exact (neg_neg _).symm

/-- Minus one times a fraction is its opposite. -/
theorem rational_mul_neg_one {q : Double} (hq : q.IsFraction) :
    ((ofInt (-1)).mul q).isFinite = true ∧
      -1 ≤ ((ofInt (-1)).mul q).rational ∧ ((ofInt (-1)).mul q).rational ≤ 0 := by
  obtain ⟨hfinite, hnonneg, hle⟩ := rational_mul_fraction (n := 1) (by decide) hq
  have hneg : (ofInt (-1)).mul q = ((ofNat 1).mul q).neg := by
    obtain ⟨s, m, rfl, -, hm, -⟩ := hq.exists_num
    have htop : Magnitude.ofNat 1 ≠ .top := Magnitude.ofNat_ne_top (by decide)
    show (num true (.ofNat 1)).mul (num s m) = _
    simp only [mul, ofNat, htop, hm, or_self, if_false, neg, Bool.true_bne, Bool.false_bne]
  rw [Nat.cast_one] at hle
  rw [hneg, isFinite_neg, rational_neg]
  exact ⟨hfinite, neg_le_neg hle, neg_nonpos.mpr hnonneg⟩

/-! ## Behind the point -/

/-- **The part behind the integer below is not rounded.** -/
theorem rational_sub_ofNat {x : Double} (hx : x.isFinite = true) {k : Nat} (hlow : k < x.rational)
    (hhigh : x.rational < k + 1) :
    (x.sub (ofNat k)).isFinite = true ∧ (x.sub (ofNat k)).rational = x.rational - k := by
  cases x with
  | nan => cases hx
  | num s m =>
  cases s with
  | true =>
    have hneg : (k : ℚ) < -m.rational := hlow
    have hnonneg := m.rational_nonneg
    have hk : (0 : ℚ) ≤ k := Nat.cast_nonneg k
    linarith
  | false =>
    have hunit := Magnitude.cast_unitsPerOne_pos
    change (k : ℚ) < m.rational at hlow
    change m.rational < k + 1 at hhigh
    rw [Magnitude.rational, lt_div_iff₀ hunit] at hlow
    rw [Magnitude.rational, div_lt_iff₀ hunit] at hhigh
    obtain ⟨hk, d, hdtop, hd⟩ :=
      Magnitude.exists_units_eq_sub (by exact_mod_cast hlow) (by exact_mod_cast hhigh)
    have hm : m ≠ .top := of_decide_eq_true hx
    have htop : Magnitude.ofNat k ≠ .top := Magnitude.ofNat_ne_top (by omega)
    have hsum : signedUnits false m + signedUnits (!false) (.ofNat k) = (d.units : Int) := by
      simp only [signedUnits, Bool.not_false, Bool.false_eq_true, if_true, if_false,
        Magnitude.units_ofNat hk]
      omega
    have hdifference : (num false m).sub (ofNat k) = num false d := by
      have hexact := d.ofRatio_units Nat.one_pos
      rw [Nat.mul_one] at hexact
      have hpos : (d.units : Int) ≠ 0 := by
        have : k * Magnitude.unitsPerOne < m.units := by exact_mod_cast hlow
        omega
      simp only [sub, ofNat, neg, add, if_neg hm, if_neg htop, hsum, ofUnits, if_neg hpos,
        Int.natAbs_natCast, hexact, decide_eq_false (Int.not_lt.mpr (Int.natCast_nonneg _))]
    rw [hdifference]
    refine ⟨decide_eq_true hdtop, ?_⟩
    show d.rational = m.rational - k
    have hcast : (m.units : ℚ) = d.units + k * Magnitude.unitsPerOne := by exact_mod_cast hd.symm
    rw [Magnitude.rational, Magnitude.rational, hcast, add_div, mul_div_cancel_right₀ _ hunit.ne',
      add_sub_cancel_right]

end Double

end Formula
