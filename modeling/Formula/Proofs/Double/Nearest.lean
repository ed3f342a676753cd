import Mathlib.Algebra.Order.Field.Rat
import Mathlib.Data.Nat.Cast.Order.Field
import Mathlib.Tactic.FieldSimp
import Mathlib.Tactic.Linarith
import Mathlib.Tactic.Ring
import Formula.Proofs.Double.Shortest

/-!
# Decimals are rounded to the nearest double

A decimal is read as the finite double nearest to its exact value, and where two are equally near,
as the one with an even significand (`isNearest_toMagnitude`). From the middle between the greatest
finite double and `2 ^ 1024` on, it is read as infinity (`toMagnitude_eq_top_iff`).

The exact value is a quotient of integers, in units. Reading rounds this quotient, but not where
the power of ten alone says that the value is far outside the range. There the quotient is rounded
to the same magnitude, so it plays no part which way is taken (`toMagnitude_eq_ofRatio`), nor how
the value is written (`toMagnitude_congr`).
-/

namespace Formula

/-! ## Exact values -/

namespace Magnitude

/-- The exact value. -/
def rational (m : Magnitude) : ℚ := m.units / unitsPerOne

end Magnitude

namespace Double

/-- The exact value of a finite double. -/
def rational : Double → ℚ
  | .nan => 0
  | .num neg m => if neg then -m.rational else m.rational

/-- The place within the blocks of its distance, whatever its sign. -/
def significand : Double → Nat
  | .nan => 0
  | .num _ m => m.significand

/-- The double is finite, no finite double is nearer to the number, and if one with another value is
as near then the significand is even. -/
structure IsNearest (x : Double) (r : ℚ) : Prop where
  finite : x.isFinite = true
  le : ∀ y : Double, y.isFinite = true → |x.rational - r| ≤ |y.rational - r|
  even : ∀ y : Double, y.isFinite = true → y.rational ≠ x.rational →
    |y.rational - r| = |x.rational - r| → x.significand % 2 = 0

end Double

namespace Magnitude

theorem cast_unitsPerOne : (unitsPerOne : ℚ) = 2 ^ 1074 := by
  have hpow : ∀ e, ((1 <<< e : Nat) : ℚ) = 2 ^ e := by
    intro e
    rw [Nat.one_shiftLeft, Nat.cast_pow, Nat.cast_ofNat]
  exact hpow 1074

theorem cast_unitsPerOne_pos : (0 : ℚ) < unitsPerOne := by
  rw [cast_unitsPerOne]
  exact pow_pos two_pos _

/-- The denominator of a quotient in units is positive. -/
theorem scale_pos {den : Nat} (hden : 0 < den) : (0 : ℚ) < unitsPerOne * den :=
  mul_pos cast_unitsPerOne_pos (Nat.cast_pos.mpr hden)

theorem rational_nonneg (m : Magnitude) : 0 ≤ m.rational :=
  div_nonneg (Nat.cast_nonneg _) cast_unitsPerOne_pos.le

theorem rational_zero : rational .zero = 0 := by
  rw [rational, units_zero, Nat.cast_zero, zero_div]

/-- Integers below `2 ^ 53` have their own value. -/
theorem rational_ofNat {n : Nat} (h : n < 0x20000000000000) : (ofNat n).rational = n := by
  rw [rational, units_ofNat h, Nat.cast_mul]
  exact mul_div_cancel_right₀ _ cast_unitsPerOne_pos.ne'

/-- A block begins at an even place. -/
theorem significand_mod_two (m : Magnitude) : m.significand % 2 = m.place % 2 := by
  unfold significand shift
  omega

/-! ## Distances as rational numbers -/

section

variable {r : ℚ} {num den : Nat}

/-- The distance in units is the distance of the exact values. -/
theorem abs_rational_sub (m : Magnitude) (hr : r * unitsPerOne * den = num) :
    |m.rational - r| * (unitsPerOne * den) = m.distance num den := by
  have hunit := cast_unitsPerOne_pos
  have hdifference : (m.rational - r) * (unitsPerOne * den) = m.units * den - num := by
    rw [sub_mul, ← mul_assoc r, hr, rational, ← mul_assoc, div_mul_cancel₀ _ hunit.ne']
  calc |m.rational - r| * (unitsPerOne * den) = |(m.rational - r) * (unitsPerOne * den)| := by
        rw [abs_mul, abs_of_nonneg (mul_nonneg hunit.le (Nat.cast_nonneg _))]
    _ = |(m.units : ℚ) * den - num| := by rw [hdifference]
    _ = m.distance num den := by
      rw [distance, distanceAt, Nat.cast_natAbs, Int.cast_abs]
      push_cast
      rfl

/-- **No other magnitude is nearer in exact value.** -/
theorem abs_rational_sub_le (hden : 0 < den) (hr : r * unitsPerOne * den = num) (n : Magnitude) :
    |(ofRatio num den).rational - r| ≤ |n.rational - r| := by
  refine le_of_mul_le_mul_right ?_ (scale_pos hden)
  rw [abs_rational_sub _ hr, abs_rational_sub _ hr, Nat.cast_le]
  exact (isNearest_ofRatio num hden).le n

theorem even_of_abs_rational_sub_eq (hden : 0 < den) (hr : r * unitsPerOne * den = num)
    {n : Magnitude} (hne : n ≠ ofRatio num den)
    (h : |n.rational - r| = |(ofRatio num den).rational - r|) :
    (ofRatio num den).significand % 2 = 0 := by
  rw [significand_mod_two]
  refine (isNearest_ofRatio num hden).even n hne ?_
  rw [← @Nat.cast_inj ℚ, ← abs_rational_sub _ hr, h, abs_rational_sub _ hr]

end

/-! ## The range -/

/-- A common quotient is rounded alike. -/
theorem ofRatio_congr {num den num' den' : Nat} (hden : 0 < den) (hden' : 0 < den')
    (h : num * den' = num' * den) : ofRatio num den = ofRatio num' den' := by
  rw [← ofRatio_mul_right num den hden', h, Nat.mul_comm den, ofRatio_mul_right num' den' hden]

theorem ofRatio_of_lt {num den : Nat} (h : 2 * num < den) : ofRatio num den = zero := by
  have hquotient : num / den = 0 := Nat.div_eq_of_lt (by omega)
  have hmod : num % den = num := Nat.mod_eq_of_lt (by omega)
  have hround : roundHalfEven num den = 0 := by
    simp only [roundHalfEven, hquotient, hmod, if_pos h]
  have hlog : Nat.log2 0 - 52 = 0 := rfl
  simp only [ofRatio, hquotient, hlog, Nat.shiftLeft_zero, hround]
  rfl

/-- The values of the last two places. -/
theorem unitsAt_last : unitsAt 0x7ff0000000000000 = 2 ^ 54 * 2 ^ 2044 ∧
    unitsAt 0x7fefffffffffffff = (2 ^ 54 - 2) * 2 ^ 2044 := by
  have hblock : ∀ p c s t, p = (t + 1) * 0x10000000000000 + s → c = s * 2 →
      s ≤ 0x20000000000000 → 0x10000000000000 ≤ s → unitsAt p = c * 2 ^ t := by
    rintro _ _ s t rfl rfl hs ht
    rw [unitsAt_block hs (.inr ht), Nat.pow_succ', Nat.mul_assoc]
  exact ⟨hblock _ _ 0x20000000000000 _ (by decide) (by decide) (by decide) (by decide),
    hblock _ _ 0x1fffffffffffff _ (by decide) (by decide) (by decide) (by decide)⟩

/-- **A quotient is rounded to infinity from the middle of the last two places on.** -/
theorem ofRatio_eq_top_iff {num den : Nat} (hden : 0 < den) :
    ofRatio num den = top ↔ (2 ^ 54 - 1) * 2 ^ 2044 * den ≤ num := by
  obtain ⟨htop, hlast⟩ := unitsAt_last
  have hnear := isNearest_ofRatio num hden
  obtain ⟨a, ha⟩ : ∃ a, 2 ^ 2044 * den = a := ⟨_, rfl⟩
  have hapos : 0 < a := ha ▸ Nat.mul_pos (pow_pos two_pos _) hden
  have hdtop : distance top num den = ((2 ^ 54 * a : Nat) - num : Int).natAbs := by
    rw [distance, distanceAt, top, htop, Nat.mul_assoc, ha]
  rw [Nat.mul_assoc, ha]
  constructor
  · intro h
    rw [h] at hnear
    have hle := hnear.le ⟨0x7fefffffffffffff, by decide⟩
    rw [hdtop, distance, distanceAt, hlast, Nat.mul_assoc, ha] at hle
    omega
  · intro h
    by_contra hne
    obtain ⟨m, hm⟩ : ∃ m, ofRatio num den = m := ⟨_, rfl⟩
    rw [hm] at hne hnear
    have hplace : m.place ≤ 0x7fefffffffffffff := by
      have hle := m.place_le
      have hneq : m.place ≠ 0x7ff0000000000000 := fun heq => hne (by cases m; cases heq; rfl)
      omega
    have hunits := Nat.mul_le_mul_right den (strictMono_unitsAt.monotone hplace)
    have hle := hnear.le top
    have heven := hnear.even top (Ne.symm hne)
    rw [hlast, Nat.mul_assoc, ha] at hunits
    rw [hdtop, distance, distanceAt] at hle heven
    -- the quotient is the middle, and the place before infinity is odd
    have hequal : unitsAt m.place * den = unitsAt 0x7fefffffffffffff * den := by
      rw [hlast, Nat.mul_assoc, ha]
      omega
    have hodd := strictMono_unitsAt.injective (Nat.eq_of_mul_eq_mul_right hden hequal)
    omega

/-- An integer is rounded to infinity from the middle of the greatest double and `2 ^ 1024` on. -/
theorem ofNat_eq_top_iff {n : Nat} : ofNat n = top ↔ (2 ^ 54 - 1) * 2 ^ 970 ≤ n := by
  have hsplit : ∀ a b c, a + b = c →
      ((2 ^ 54 - 1) * 2 ^ c ≤ n <<< b ↔ (2 ^ 54 - 1) * 2 ^ a ≤ n) := by
    rintro a b _ rfl
    rw [Nat.shiftLeft_eq, Nat.pow_add, ← Nat.mul_assoc]
    exact Nat.mul_le_mul_right_iff (Nat.two_pow_pos b)
  rw [ofNat, ofRatio_eq_top_iff Nat.one_pos, Nat.mul_one, mul_unitsPerOne]
  exact hsplit 970 1074 2044 (by decide)

end Magnitude

/-! ## Quotients -/

section

variable {r : ℚ} {num den : Nat}

/-- With the wrong sign a value is not nearer, and as near only if one of the two is zero. -/
theorem abs_sub_le_abs_neg_sub {a b : ℚ} (ha : 0 ≤ a) (hb : 0 ≤ b) :
    |a - b| ≤ |-a - b| ∧ (|-a - b| = |a - b| → a = 0 ∨ b = 0) := by
  have hsum : |-a - b| = a + b := by
    rw [← neg_add', abs_neg, abs_of_nonneg (add_nonneg ha hb)]
  rw [hsum]
  rcases le_total a b with hab | hab
  · rw [abs_of_nonpos (sub_nonpos.mpr hab)]
    exact ⟨by linarith, fun h => .inl (by linarith)⟩
  · rw [abs_of_nonneg (sub_nonneg.mpr hab)]
    exact ⟨by linarith, fun h => .inr (by linarith)⟩

/-- **A quotient is rounded to the nearest double, unless to infinity.** -/
theorem Double.isNearest_ofRatio (hden : 0 < den) (hr : r * Magnitude.unitsPerOne * den = num)
    (hfinite : Magnitude.ofRatio num den ≠ .top) :
    (Double.num false (.ofRatio num den)).IsNearest r := by
  have hle := Magnitude.abs_rational_sub_le hden hr
  have heven : ∀ n : Magnitude, n ≠ .ofRatio num den →
      |n.rational - r| = |(Magnitude.ofRatio num den).rational - r| →
      (Magnitude.ofRatio num den).significand % 2 = 0 :=
    fun n hne heq => Magnitude.even_of_abs_rational_sub_eq hden hr hne heq
  have hnonneg : 0 ≤ r := by
    refine nonneg_of_mul_nonneg_left ?_ (Magnitude.scale_pos hden)
    rw [← mul_assoc, hr]
    exact Nat.cast_nonneg _
  obtain ⟨m, hm⟩ : ∃ m, Magnitude.ofRatio num den = m := ⟨_, rfl⟩
  rw [hm] at hle heven hfinite ⊢
  refine ⟨by simpa [isFinite] using hfinite, fun y hy => ?_, fun y hy hne heq => ?_⟩
  · cases y with
    | nan => cases hy
    | num neg n =>
      cases neg with
      | false => exact hle n
      | true => exact (hle n).trans (abs_sub_le_abs_neg_sub n.rational_nonneg hnonneg).1
  · cases y with
    | nan => cases hy
    | num neg n =>
      cases neg with
      | false =>
        refine heven n ?_ heq
        rintro rfl
        exact hne rfl
      | true =>
        obtain ⟨hsign, hzero⟩ := abs_sub_le_abs_neg_sub n.rational_nonneg hnonneg
        have hsame : |n.rational - r| = |m.rational - r| := by
          refine le_antisymm ?_ (hle n)
          rw [← show |-n.rational - r| = |m.rational - r| from heq]
          exact hsign
        refine heven n (fun heqm => hne ?_) hsame
        -- the other sign of the value itself: it is zero
        have hvalue : m.rational = 0 := by
          rw [heqm] at hzero
          refine (hzero (heqm ▸ heq)).elim id fun hr0 => ?_
          have hmin := hle .zero
          rw [hr0, Magnitude.rational_zero, sub_zero, sub_zero, abs_zero] at hmin
          exact abs_nonpos_iff.mp hmin
        show -n.rational = m.rational
        rw [heqm, hvalue, neg_zero]

end

/-! ## Decimals -/

namespace Decimal

/-- The exact value. -/
def rational (d : Decimal) : ℚ := d.digits * 10 ^ d.exponent

theorem rational_nonneg (d : Decimal) : 0 ≤ d.rational :=
  mul_nonneg (Nat.cast_nonneg _) (zpow_nonneg (by norm_num) _)

theorem two_pow_le_ten_pow {a e : Nat} (h : a ≤ 3 * e) : 2 ^ a ≤ 10 ^ e :=
  calc 2 ^ a ≤ 2 ^ (3 * e) := Nat.pow_le_pow_right two_pos h
    _ = 8 ^ e := Nat.pow_mul 2 3 e
    _ ≤ 10 ^ e := Nat.pow_le_pow_left (by decide) e

/-- A decimal far above the range is infinite, with its power of ten as well. -/
theorem ofRatio_of_huge {digits e : Nat} (h : digits ≠ 0) (he : 400 < e) :
    .ofRatio (digits * 10 ^ e * Magnitude.unitsPerOne) 1 = Magnitude.top := by
  rw [Magnitude.ofRatio_eq_top_iff Nat.one_pos, Nat.mul_one]
  have hsplit : ∀ a b c, a + b = c → 2 ^ 54 * 2 ^ c = 2 ^ (54 + a) * 2 ^ b := by
    rintro a b _ rfl
    rw [Nat.pow_add, Nat.pow_add, Nat.mul_assoc]
  have hunits : ∀ e, 2 ^ e = 1 <<< e := fun e => (Nat.one_shiftLeft e).symm
  calc (2 ^ 54 - 1) * 2 ^ 2044 ≤ 2 ^ 54 * 2 ^ 2044 := Nat.mul_le_mul_right _ (by decide)
    _ = 2 ^ (54 + 970) * 2 ^ 1074 := hsplit _ _ _ (by decide)
    _ ≤ digits * 10 ^ e * 2 ^ 1074 := by
      refine Nat.mul_le_mul_right _ ?_
      exact (two_pow_le_ten_pow (by omega)).trans (Nat.le_mul_of_pos_left _ (Nat.pos_of_ne_zero h))
    _ = digits * 10 ^ e * Magnitude.unitsPerOne := congrArg _ (hunits 1074)

/-- A decimal far below the range is zero, with its power of ten as well. -/
theorem ofRatio_of_tiny {digits e : Nat} (h : digits ≠ 0) (he : digits.log2 + 1080 < 3 * e) :
    .ofRatio (digits * Magnitude.unitsPerOne) (10 ^ e) = Magnitude.zero := by
  refine Magnitude.ofRatio_of_lt ?_
  have hdigits : digits < 2 ^ (digits.log2 + 1) := (Nat.log2_lt h).mp (Nat.lt_succ_self _)
  have hunits : ∀ a, digits <<< a < 2 ^ (digits.log2 + 1 + a) := by
    intro a
    rw [Nat.shiftLeft_eq, Nat.pow_add]
    exact Nat.mul_lt_mul_of_pos_right hdigits (Nat.two_pow_pos a)
  calc 2 * (digits * Magnitude.unitsPerOne)
      = 2 * (digits <<< 1074) := by rw [Magnitude.mul_unitsPerOne]
    _ < 2 * 2 ^ (digits.log2 + 1 + 1074) := Nat.mul_lt_mul_of_pos_left (hunits 1074) two_pos
    _ = 2 ^ (digits.log2 + 1 + 1074 + 1) := Nat.pow_succ'.symm
    _ ≤ 10 ^ e := two_pow_le_ten_pow (by omega)

/-- **Reading rounds the exact value, whichever way it is taken.** -/
theorem toMagnitude_eq_ofRatio (d : Decimal) {num den : Nat} (hden : 0 < den)
    (hr : d.rational * Magnitude.unitsPerOne * den = num) : d.toMagnitude = .ofRatio num den := by
  have hround : ∀ num' den' : Nat, 0 < den' → d.rational * Magnitude.unitsPerOne * den' = num' →
      Magnitude.ofRatio num' den' = .ofRatio num den := by
    intro num' den' hden' hr'
    refine Magnitude.ofRatio_congr hden' hden ?_
    rw [← @Nat.cast_inj ℚ, Nat.cast_mul, Nat.cast_mul, ← hr, ← hr', mul_right_comm]
  obtain ⟨digits, exponent⟩ := d
  by_cases h : digits = 0
  · rw [h] at hround ⊢
    rw [toMagnitude_zero, ← hround 0 1 Nat.one_pos (by simp [rational])]
    exact (Magnitude.ofRatio_of_lt (by decide)).symm
  cases exponent with
  | ofNat e =>
    rw [← hround (digits * 10 ^ e * Magnitude.unitsPerOne) 1 Nat.one_pos (by simp [rational])]
    by_cases he : 400 < e
    · rw [ofRatio_of_huge h he, toMagnitude, if_neg h]
      exact if_pos he
    · exact toMagnitude_ofNat h (Nat.le_of_not_lt he)
  | negSucc k =>
    have hpow : (10 : ℚ) ^ (k + 1) ≠ 0 := pow_ne_zero _ (by norm_num)
    rw [← hround (digits * Magnitude.unitsPerOne) (10 ^ (k + 1)) (Nat.pow_pos (by decide)) (by
      rw [rational, zpow_negSucc]
      push_cast
      field_simp)]
    by_cases he : digits.log2 + 1080 < 3 * (k + 1)
    · rw [ofRatio_of_tiny h he, toMagnitude, if_neg h]
      exact if_pos he
    · exact toMagnitude_negSucc h (Nat.le_of_not_lt he)

/-- The exact value is a quotient of integers, in units. -/
theorem exists_quotient (d : Decimal) : ∃ num den : Nat, 0 < den ∧
    d.rational * Magnitude.unitsPerOne * den = num := by
  obtain ⟨q, hq⟩ : ∃ q, d.rational * Magnitude.unitsPerOne = q := ⟨_, rfl⟩
  have hnonneg : 0 ≤ q.num := by
    rw [Rat.num_nonneg, ← hq]
    exact mul_nonneg d.rational_nonneg Magnitude.cast_unitsPerOne_pos.le
  obtain ⟨num, hnum⟩ := Int.eq_ofNat_of_zero_le hnonneg
  refine ⟨num, q.den, q.den_pos, ?_⟩
  rw [hq, Rat.mul_den_eq_num, hnum]
  rfl

/-- **Equal values are read alike, however they are written.** -/
theorem toMagnitude_congr {d d' : Decimal} (h : d.rational = d'.rational) :
    d.toMagnitude = d'.toMagnitude := by
  obtain ⟨num, den, hden, hr⟩ := d.exists_quotient
  rw [d.toMagnitude_eq_ofRatio hden hr, d'.toMagnitude_eq_ofRatio hden (h ▸ hr)]

/-- **A decimal is infinite from the middle of the greatest value and `2 ^ 1024` on.** -/
theorem toMagnitude_eq_top_iff (d : Decimal) :
    d.toMagnitude = .top ↔ 2 ^ 1024 - 2 ^ 970 ≤ d.rational := by
  obtain ⟨num, den, hden, hr⟩ := d.exists_quotient
  have hsplit : ∀ a b c, a + b = c →
      (((2 ^ 54 - 1) * 2 ^ c : Nat) : ℚ) = (2 ^ (54 + a) - 2 ^ a) * 2 ^ b := by
    rintro a b _ rfl
    push_cast
    rw [pow_add, pow_add]
    ring
  have hthreshold : (((2 ^ 54 - 1) * 2 ^ 2044 : Nat) : ℚ)
      = (2 ^ 1024 - 2 ^ 970) * Magnitude.unitsPerOne := by
    rw [Magnitude.cast_unitsPerOne]
    exact hsplit 970 1074 2044 (by decide)
  rw [d.toMagnitude_eq_ofRatio hden hr, Magnitude.ofRatio_eq_top_iff hden, ← @Nat.cast_le ℚ, ← hr,
    Nat.cast_mul, hthreshold, mul_assoc, mul_assoc,
    mul_le_mul_iff_left₀ (Magnitude.scale_pos hden)]

/-- **A decimal within the range is read as the nearest double.** -/
theorem isNearest_toMagnitude {d : Decimal} (h : d.rational < 2 ^ 1024 - 2 ^ 970) :
    (Double.num false d.toMagnitude).IsNearest d.rational := by
  obtain ⟨num, den, hden, hr⟩ := d.exists_quotient
  have hfinite : d.toMagnitude ≠ .top := mt d.toMagnitude_eq_top_iff.mp (not_le.mpr h)
  rw [d.toMagnitude_eq_ofRatio hden hr] at hfinite ⊢
  exact Double.isNearest_ofRatio hden hr hfinite

end Decimal

end Formula
