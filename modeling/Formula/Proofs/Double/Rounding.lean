import Mathlib.Algebra.Group.Nat.Defs
import Formula.Proofs.Double.Order

/-!
# Rounding to the nearest magnitude

A quotient of integers is rounded to the magnitude that is nearest to it, and to the even place of
two that are as near (`isNearest_ofRatio`). Only the quotient counts: a common factor of numerator
and denominator changes nothing (`ofRatio_mul_right`).

The shift is chosen so that rounding the quotient to an integer yields the significand. Neighbours
of that place are at least one step of the shift away, and the rounding is off by at most half a
step. Only where the significand begins a block are the places below it closer; but there the
quotient is not below the place.
-/

namespace Formula

namespace Magnitude

/-! ## Distances -/

/-- How far the value at a place is from `num / den`, counted in parts of which `den` are a unit. -/
def distanceAt (p num den : Nat) : Nat := ((unitsAt p * den : Nat) - num : Int).natAbs

def distance (m : Magnitude) (num den : Nat) : Nat := distanceAt m.place num den

/-- No other magnitude is nearer to `num / den` units, and if one is as near then the place is
even. Infinity counts as `2 ^ 1024`. -/
structure IsNearest (m : Magnitude) (num den : Nat) : Prop where
  le : ∀ n : Magnitude, m.distance num den ≤ n.distance num den
  even : ∀ n : Magnitude, n ≠ m → n.distance num den = m.distance num den → m.place % 2 = 0

/-! ## The integer part of the rounding -/

/-- The nearest integer is off by at most a half, and even if it is off by a half. -/
theorem roundHalfEven_spec (num : Nat) {den : Nat} (hden : 0 < den) :
    2 * num ≤ 2 * (roundHalfEven num den * den) + den ∧
      2 * (roundHalfEven num den * den) ≤ 2 * num + den ∧
      (2 * num = 2 * (roundHalfEven num den * den) + den ∨
          2 * (roundHalfEven num den * den) = 2 * num + den →
        roundHalfEven num den % 2 = 0) := by
  have hdiv := Nat.div_add_mod' num den
  have hmod := Nat.mod_lt num hden
  have hsucc : (num / den + 1) * den = num / den * den + den := Nat.succ_mul _ _
  unfold roundHalfEven
  simp only
  split
  · omega
  split
  · rw [hsucc]; omega
  split
  · omega
  · rw [hsucc]; omega

/-- A common factor changes nothing. -/
theorem roundHalfEven_mul_right (num den : Nat) {c : Nat} (hc : 0 < c) :
    roundHalfEven (num * c) (den * c) = roundHalfEven num den := by
  have hlt : ∀ a b, a * c < b * c ↔ a < b := fun a b => Nat.mul_lt_mul_right hc
  unfold roundHalfEven
  simp only [Nat.mul_div_mul_right _ _ hc, Nat.mul_mod_mul_right, ← Nat.mul_assoc, hlt]

/-- **A quotient is rounded, whatever its terms are.** -/
theorem ofRatio_mul_right (num den : Nat) {c : Nat} (hc : 0 < c) :
    ofRatio (num * c) (den * c) = ofRatio num den := by
  have hshift : ∀ t, (den * c) <<< t = den <<< t * c := by
    intro t
    rw [Nat.shiftLeft_eq, Nat.shiftLeft_eq, Nat.mul_right_comm]
  unfold ofRatio
  simp only [Nat.mul_div_mul_right _ _ hc, hshift, roundHalfEven_mul_right _ _ hc]

/-! ## The nearest place -/

/-- The value at a place, by shift and significand. A significand of `2 ^ 53` is at the next
block. -/
theorem unitsAt_block {t s : Nat} (hs : s ≤ 0x20000000000000) (ht : t = 0 ∨ 0x10000000000000 ≤ s) :
    unitsAt (t * 0x10000000000000 + s) = s * 2 ^ t := by
  rw [unitsAt, Nat.shiftLeft_eq]
  rcases Nat.lt_or_ge s 0x20000000000000 with h | h
  · have hshift : (t * 0x10000000000000 + s) / 0x10000000000000 - 1 = t := by omega
    rw [hshift, Nat.add_sub_cancel_left]
  · have hshift : (t * 0x10000000000000 + s) / 0x10000000000000 - 1 = t + 1 := by omega
    have hsig : t * 0x10000000000000 + s - (t + 1) * 0x10000000000000 = 0x10000000000000 := by omega
    rw [hshift, hsig, Nat.pow_succ, show s = 0x10000000000000 * 2 by omega, Nat.mul_assoc,
      Nat.mul_comm 2]

/-- Places above a significand are at least one step away. -/
theorem step_le_unitsAt {t s p : Nat} (hs : s ≤ 0x20000000000000)
    (ht : t = 0 ∨ 0x10000000000000 ≤ s) (hp : t * 0x10000000000000 + s < p) :
    (s + 1) * 2 ^ t ≤ unitsAt p := by
  have hmono : unitsAt (t * 0x10000000000000 + s + 1) ≤ unitsAt p :=
    strictMono_unitsAt.monotone hp
  refine Nat.le_trans ?_ hmono
  rcases Nat.lt_or_ge s 0x20000000000000 with h | h
  · rw [Nat.add_assoc, unitsAt_block (by omega) (by omega)]
  · have hnext : t * 0x10000000000000 + s + 1
        = (t + 1) * 0x10000000000000 + 0x10000000000001 := by omega
    rw [hnext, unitsAt_block (by decide) (.inr (by decide)), Nat.pow_succ,
      show s = 0x20000000000000 by omega]
    have := Nat.two_pow_pos t
    omega

/-- Places below a significand are at least one step away, unless it begins a block. -/
theorem unitsAt_add_step_le {t s p : Nat} (hs : s ≤ 0x20000000000000)
    (ht : t = 0 ∨ 0x10000000000000 < s) (hp : p < t * 0x10000000000000 + s) :
    unitsAt p + 2 ^ t ≤ s * 2 ^ t := by
  have hmono : unitsAt p ≤ unitsAt (t * 0x10000000000000 + (s - 1)) :=
    strictMono_unitsAt.monotone (by omega)
  rw [unitsAt_block (by omega) (by omega)] at hmono
  have hs1 : (s - 1) * 2 ^ t + 2 ^ t = s * 2 ^ t := by
    rw [← Nat.succ_mul, show (s - 1).succ = s by omega]
  omega

/-- The shift of a quotient leaves a significand with at most 53 binary digits, and with exactly 53
if there is a shift. -/
theorem quotient_bounds (num : Nat) {den : Nat} (hden : 0 < den) :
    num < 0x20000000000000 * (den * 2 ^ (Nat.log2 (num / den) - 52)) ∧
      (Nat.log2 (num / den) - 52 = 0 ∨
        0x10000000000000 * (den * 2 ^ (Nat.log2 (num / den) - 52)) ≤ num) := by
  obtain ⟨q, hq⟩ : ∃ q, num / den = q := ⟨_, rfl⟩
  obtain ⟨t, ht⟩ : ∃ t, Nat.log2 q - 52 = t := ⟨_, rfl⟩
  rw [hq, ht]
  have hpow : 0x20000000000000 * (den * 2 ^ t) = 2 ^ (t + 53) * den := by
    rw [Nat.pow_add, Nat.mul_comm den, ← Nat.mul_assoc, Nat.mul_comm 0x20000000000000]
  have hpow' : 0x10000000000000 * (den * 2 ^ t) = 2 ^ (t + 52) * den := by
    rw [Nat.pow_add, Nat.mul_comm den, ← Nat.mul_assoc, Nat.mul_comm 0x10000000000000]
  rw [hpow, hpow', ← Nat.div_lt_iff_lt_mul hden, hq, ← Nat.le_div_iff_mul_le hden, hq]
  by_cases hzero : q = 0
  · subst hzero
    exact ⟨Nat.two_pow_pos _, .inl (by rw [← ht]; rfl)⟩
  · refine ⟨(Nat.log2_lt hzero).mp (by omega), ?_⟩
    by_cases h : t = 0
    · exact .inl h
    · exact .inr ((Nat.le_log2 hzero).mp (by omega))

/-- The place of a rounded quotient, whether or not it is that of a magnitude. -/
def nearestPlace (num den : Nat) : Nat :=
  (Nat.log2 (num / den) - 52) * 0x10000000000000
    + roundHalfEven num (den <<< (Nat.log2 (num / den) - 52))

/-- The place is the nearest of all, and it is even if another one is as near. -/
theorem distanceAt_nearestPlace_le (num : Nat) {den : Nat} (hden : 0 < den) (p : Nat) :
    distanceAt (nearestPlace num den) num den ≤ distanceAt p num den ∧
      (p ≠ nearestPlace num den →
        distanceAt p num den = distanceAt (nearestPlace num den) num den →
        nearestPlace num den % 2 = 0) := by
  obtain ⟨hlt, hge⟩ := quotient_bounds num hden
  obtain ⟨t, ht⟩ : ∃ t, Nat.log2 (num / den) - 52 = t := ⟨_, rfl⟩
  rw [ht] at hlt hge
  unfold nearestPlace
  rw [ht, Nat.shiftLeft_eq]
  have hstep : 0 < den * 2 ^ t := Nat.mul_pos hden (Nat.two_pow_pos t)
  obtain ⟨hhigh, hlow, htie⟩ := roundHalfEven_spec num hstep
  obtain ⟨s, hs⟩ : ∃ s, roundHalfEven num (den * 2 ^ t) = s := ⟨_, rfl⟩
  rw [hs] at hhigh hlow htie ⊢
  -- `d` is the length of a step
  obtain ⟨d, hd⟩ : ∃ d, den * 2 ^ t = d := ⟨_, rfl⟩
  rw [hd] at hlt hge hstep hhigh hlow htie
  have hle : s ≤ 0x20000000000000 := by
    by_contra h
    have := Nat.mul_le_mul_right d (show 0x20000000000001 ≤ s by omega)
    omega
  have hnormal : t = 0 ∨ 0x10000000000000 ≤ s := by
    refine hge.imp_right fun hge => ?_
    by_contra h
    have := Nat.mul_le_mul_right d (show s ≤ 0xfffffffffffff by omega)
    omega
  have hplace : unitsAt (t * 0x10000000000000 + s) * den = s * d := by
    rw [unitsAt_block hle hnormal, ← hd, Nat.mul_assoc, Nat.mul_comm den]
  unfold distanceAt
  rw [hplace]
  rcases Nat.lt_trichotomy p (t * 0x10000000000000 + s) with hp | hp | hp
  · by_cases hblock : t = 0 ∨ 0x10000000000000 < s
    · have hnear := Nat.mul_le_mul_right den (unitsAt_add_step_le hle hblock hp)
      have hd' : 2 ^ t * den = d := by rw [← hd, Nat.mul_comm]
      rw [Nat.add_mul, Nat.mul_assoc s, hd'] at hnear
      have heven : 2 * (s * d) = 2 * num + d → s % 2 = 0 := fun h => htie (.inr h)
      omega
    · -- at the beginning of a block the quotient is not below the place
      have hnear := Nat.mul_lt_mul_of_pos_right (strictMono_unitsAt hp) hden
      have hs' : s = 0x10000000000000 := by omega
      have hge' : 0x10000000000000 * d ≤ num := hge.resolve_left (by omega)
      rw [hplace, hs'] at hnear
      rw [hs']
      omega
  · rw [hp, hplace]
    exact ⟨Nat.le_refl _, fun hne => absurd rfl hne⟩
  · have hnear := Nat.mul_le_mul_right den (step_le_unitsAt hle hnormal hp)
    have hd' : 2 ^ t * den = d := by rw [← hd, Nat.mul_comm]
    rw [Nat.mul_assoc, hd', Nat.add_mul, Nat.one_mul] at hnear
    have heven : 2 * num = 2 * (s * d) + d → s % 2 = 0 := fun h => htie (.inl h)
    omega

/-- **A quotient is rounded to the nearest magnitude, and to the even one of two.** -/
theorem isNearest_ofRatio (num : Nat) {den : Nat} (hden : 0 < den) :
    (ofRatio num den).IsNearest num den := by
  have hnearest := distanceAt_nearestPlace_le num hden
  have hround : ofRatio num den = ofPlace (nearestPlace num den) := rfl
  rw [hround]
  rcases Nat.lt_or_ge 0x7ff0000000000000 (nearestPlace num den) with htop | hplace
  · -- infinity stands for all places above it
    have hinfinite : ofPlace (nearestPlace num den) = top := by
      rw [ofPlace, top]
      congr 1
      omega
    rw [hinfinite]
    refine ⟨fun n => ?_, fun _ _ _ => by decide⟩
    have hle : unitsAt n.place * den ≤ unitsAt top.place * den :=
      Nat.mul_le_mul_right den (strictMono_unitsAt.monotone n.place_le)
    have hlt : unitsAt top.place * den < unitsAt (nearestPlace num den) * den :=
      Nat.mul_lt_mul_of_pos_right (strictMono_unitsAt htop) hden
    have hnear := (hnearest top.place).1
    unfold distanceAt at hnear
    unfold distance distanceAt
    omega
  · have hself : (ofPlace (nearestPlace num den)).place = nearestPlace num den :=
      Nat.min_eq_left hplace
    refine ⟨fun n => ?_, fun n hne heq => ?_⟩
    · rw [distance, hself]
      exact (hnearest n.place).1
    · rw [distance, distance, hself] at heq
      rw [hself]
      refine (hnearest n.place).2 (fun h => hne ?_) heq
      rw [← h, ofPlace_place]

end Magnitude

end Formula
