import Formula.Proofs.Double.Layout
import Formula.Proofs.Double.Nearest
import Formula.Proofs.Token.Longest

/-!
# The values of number literals

A literal denotes a rational number: its digits before and behind the point, times a power of ten.
It is taken for a decimal with the same exact value (`rational_decimal`), and this is read as the
nearest double. So neither the number of its digits nor the size of its exponent matters, but only
the number that it denotes (`Cursor.readNumber_nearest`).
-/

namespace Formula

namespace Literal

/-- The exact value. -/
def rational (l : Literal) : ℚ :=
  (digitsValue l.whole + digitsValue (l.fraction.getD []) / 10 ^ (l.fraction.getD []).length)
    * 10 ^ l.exponentValue

/-- **The decimal of a literal has its exact value.** -/
theorem rational_decimal (l : Literal) : l.decimal.rational = l.rational := by
  have hpow : (10 : ℚ) ^ (l.fraction.getD []).length ≠ 0 := pow_ne_zero _ (by norm_num)
  rw [Decimal.rational, decimal, rational]
  simp only
  rw [digitsValue_append, zpow_sub₀ (by norm_num), zpow_natCast]
  push_cast
  field_simp

/-- A literal is out of range from the middle of the greatest finite value and `2 ^ 1024` on. -/
theorem isInfinite_value_iff (l : Literal) :
    l.value.isInfinite = true ↔ 2 ^ 1024 - 2 ^ 970 ≤ l.rational := by
  rw [← l.rational_decimal, ← Decimal.toMagnitude_eq_top_iff]
  exact decide_eq_true_iff

/-- Within the range, the value is the double nearest to the exact value. -/
theorem isNearest_value {l : Literal} (h : l.value.isInfinite = false) :
    l.value.IsNearest l.rational := by
  have hrange : l.rational < 2 ^ 1024 - 2 ^ 970 := by
    rw [← not_le, ← isInfinite_value_iff, h]
    exact Bool.false_ne_true
  rw [← l.rational_decimal] at hrange ⊢
  exact Decimal.isNearest_toMagnitude hrange

/-- Literals with the same exact value have the same value. -/
theorem value_congr {l l' : Literal} (h : l.rational = l'.rational) : l.value = l'.value := by
  rw [← l.rational_decimal, ← l'.rational_decimal] at h
  rw [value, value, Decimal.toMagnitude_congr h]

end Literal

/--
**A number is read as the nearest double.**

A value that is read is the finite double nearest to the number that the literal there denotes, and
if two are as near it is the one with an even significand; its sign is never negative. A number is
refused as out of range exactly if it is at least `2 ^ 1024 - 2 ^ 970`, and else it is accepted. And
literals that denote the same number are read as the same double, wherever they stand.
-/
theorem Cursor.readNumber_nearest (text : String) (pos : Nat) :
    (∀ v c, (ofText text pos).readNumber = .ok (v, c) →
      ∃ l : Literal, l.IsNumber ∧ l.IsLongest (text.toList.drop pos) ∧
        c = ofText text (pos + l.spelling.length) ∧
        v.IsNearest l.rational ∧ ∃ m, v = .num false m) ∧
      (∀ l : Literal, l.IsNumber → l.IsLongest (text.toList.drop pos) →
        ((∃ e, (ofText text pos).readNumber = .error e ∧
            e.cause = .numberOutOfRange (String.ofList l.spelling)) ↔
          2 ^ 1024 - 2 ^ 970 ≤ l.rational) ∧
        ((∃ v c, (ofText text pos).readNumber = .ok (v, c)) ↔
          l.rational < 2 ^ 1024 - 2 ^ 970)) ∧
      ∀ (text' : String) (pos' : Nat) (l l' : Literal) (v v' : Double) (c c' : Cursor),
        l.IsLongest (text.toList.drop pos) → l'.IsLongest (text'.toList.drop pos') →
        l.rational = l'.rational → (ofText text pos).readNumber = .ok (v, c) →
        (ofText text' pos').readNumber = .ok (v', c') → v.toBits = v'.toBits := by
  refine ⟨?_, ?_, ?_⟩
  · intro v c h
    obtain ⟨hnumber, hfinite, rfl, rfl⟩ := readNumber_eq_ok_iff.mp h
    exact ⟨_, hnumber, Literal.isLongest_iff.mpr rfl, advance_ofText text pos _,
      Literal.isNearest_value hfinite, _, rfl⟩
  · intro l hnumber hl
    rw [Literal.isLongest_iff.mp hl] at hnumber ⊢
    rw [← not_le, ← Literal.isInfinite_value_iff]
    refine ⟨⟨?_, fun hinfinite => ?_⟩, ⟨?_, fun hfinite => ?_⟩⟩
    · rintro ⟨e, he, -⟩
      obtain ⟨n, hfault, -⟩ := exists_of_readNumber_eq_error he
      by_contra hfinite
      have hnone := hnumber.fault?_eq
      rw [if_neg hfinite] at hnone
      cases hfault.symm.trans hnone
    · cases hread : (ofText text pos).readNumber with
      | ok r => exact absurd hinfinite (ne_true_of_eq_false (readNumber_eq_ok_iff.mp hread).2.1)
      | error e =>
        obtain ⟨n, hfault, -⟩ := exists_of_readNumber_eq_error hread
        have hsome := hnumber.fault?_eq
        rw [if_pos hinfinite] at hsome
        have hcause := Option.some.inj (hfault.symm.trans hsome)
        exact ⟨e, rfl, congrArg Prod.fst hcause⟩
    · rintro ⟨v, c, h⟩
      exact ne_true_of_eq_false (readNumber_eq_ok_iff.mp h).2.1
    · exact ⟨_, _, readNumber_eq_ok_iff.mpr ⟨hnumber, eq_false_of_ne_true hfinite, rfl, rfl⟩⟩
  · intro text' pos' l l' v v' c c' hl hl' hrational h h'
    obtain ⟨-, -, rfl, -⟩ := readNumber_eq_ok_iff.mp h
    obtain ⟨-, -, rfl, -⟩ := readNumber_eq_ok_iff.mp h'
    rw [Literal.isLongest_iff.mp hl, Literal.isLongest_iff.mp hl'] at hrational
    exact congrArg Double.toBits (Literal.value_congr hrational)

/-- An integer in the middle of two doubles is read as the even one. -/
example : (Literal.read "9007199254740993".toList).value = .ofNat 9007199254740992 := by
  decide +kernel

end Formula
