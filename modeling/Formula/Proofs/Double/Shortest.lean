import Formula.Double.Decimal
import Formula.Proofs.Double.Rounding

/-!
# The shortest decimal reads back

Writing a magnitude as its shortest decimal and reading the decimal leads back to the magnitude
(`toMagnitude_shortest`). On the way down the grids no decimal is taken before it has been tried.
The last grid needs no trial: the value is on it, and a value that is there is not rounded.
-/

namespace Formula

/-! ## Reading a decimal -/

namespace Decimal

theorem toMagnitude_zero (e : Int) : (mk 0 e).toMagnitude = .zero := if_pos rfl

variable {digits : Nat} (h : digits ≠ 0)

include h

/-- A decimal without places behind the point, if it is not far above the range. -/
theorem toMagnitude_ofNat {e : Nat} (he : e ≤ 400) :
    (mk digits (.ofNat e)).toMagnitude
      = .ofRatio (digits * 10 ^ e * Magnitude.unitsPerOne) 1 := by
  rw [toMagnitude, if_neg h]
  exact if_neg (Nat.not_lt_of_le he)

/-- A decimal with places behind the point, if it is not far below the range. -/
theorem toMagnitude_negSucc {k : Nat} (hk : 3 * (k + 1) ≤ digits.log2 + 1080) :
    (mk digits (.negSucc k)).toMagnitude
      = .ofRatio (digits * Magnitude.unitsPerOne) (10 ^ (k + 1)) := by
  rw [toMagnitude, if_neg h]
  exact if_neg (Nat.not_lt_of_le hk)

end Decimal

/-! ## Writing the shortest one -/

namespace Magnitude

/-- The nearest integer is one of the two neighbours. -/
theorem roundHalfEven_eq_or (num den : Nat) :
    roundHalfEven num den = num / den ∨ roundHalfEven num den = num / den + 1 := by
  unfold roundHalfEven
  simp only
  split
  · exact .inl rfl
  split
  · exact .inr rfl
  split
  · exact .inl rfl
  · exact .inr rfl

/-- A decimal that is taken on a grid reads back. -/
theorem toMagnitude_of_nearestOnGrid? {m : Magnitude} {s : Nat} {d : Decimal}
    (h : m.nearestOnGrid? s = some d) : d.toMagnitude = m := by
  unfold nearestOnGrid? at h
  simp only at h
  split at h
  · next hbelow =>
    split at h
    · next habove =>
      cases h
      rcases roundHalfEven_eq_or (m.onGrid s).1 (m.onGrid s).2 with hround | hround
      · rw [hround]; exact hbelow
      · rw [hround]; exact habove
    · cases h; exact hbelow
  · split at h
    · next habove => cases h; exact habove
    · cases h

/-- The integer part of a logarithm grows by at least two with each factor of five. -/
theorem two_mul_le_log2_mul_pow {n : Nat} (hn : 0 < n) (k : Nat) :
    2 * k ≤ Nat.log2 (n * 5 ^ k) := by
  have hpos : 0 < n * 5 ^ k := Nat.mul_pos hn (Nat.pow_pos (by decide))
  rw [Nat.le_log2 (Nat.ne_of_gt hpos), Nat.pow_mul]
  calc (2 ^ 2) ^ k ≤ 5 ^ k := Nat.pow_le_pow_left (by decide) k
    _ ≤ n * 5 ^ k := Nat.le_mul_of_pos_left _ hn

theorem units_pos {m : Magnitude} (h : m ≠ zero) : 0 < m.units := by
  refine Nat.lt_of_not_ge fun hle => h ?_
  have hplace : m.place ≤ zero.place := units_le_units_iff.mp (Nat.le_trans hle (Nat.zero_le _))
  cases m
  simpa [zero] using hplace

/-- **On the last grid there is the value itself.** -/
theorem toMagnitude_shortestFrom_zero {m : Magnitude} (h : m ≠ zero) :
    (m.shortestFrom 0).toMagnitude = m := by
  obtain ⟨k, hk⟩ : ∃ k, k + 1 = 1074 := ⟨1073, rfl⟩
  have hlog := two_mul_le_log2_mul_pow (units_pos h) (k + 1)
  have hdigits : m.units * 5 ^ (k + 1) ≠ 0 :=
    Nat.ne_of_gt (Nat.mul_pos (units_pos h) (Nat.pow_pos (by decide)))
  have hexact : m.units * 5 ^ (k + 1) * unitsPerOne = m.units * 10 ^ (k + 1) := by
    rw [unitsPerOne, Nat.one_shiftLeft, ← hk, Nat.mul_assoc, ← Nat.mul_pow]
  have hexponent : (-1074 : Int) = .negSucc k := by
    rw [show k = 1073 by omega]
    rfl
  rw [shortestFrom, ← hk, hexponent]
  show (Decimal.mk (m.units * 5 ^ (k + 1)) (.negSucc k)).toMagnitude = m
  rw [Decimal.toMagnitude_negSucc hdigits (by omega), hexact]
  exact m.ofRatio_units (Nat.pow_pos (by decide))

/-- The search ends with a decimal that reads back. -/
theorem toMagnitude_shortestFrom {m : Magnitude} (h : m ≠ zero) (s : Nat) :
    (m.shortestFrom s).toMagnitude = m := by
  induction s with
  | zero => exact toMagnitude_shortestFrom_zero h
  | succ s ih =>
    rw [shortestFrom]
    split
    · next d hd => exact toMagnitude_of_nearestOnGrid? hd
    · exact ih

/-- **The shortest decimal reads back.** -/
theorem toMagnitude_shortest (m : Magnitude) : m.shortest.toMagnitude = m := by
  unfold shortest
  split
  · next h => rw [h, Decimal.toMagnitude_zero]
  · next h => exact toMagnitude_shortestFrom h _

end Magnitude

end Formula
