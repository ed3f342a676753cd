import Formula.Double.Text
import Formula.Proofs.Double.Shortest
import Formula.Proofs.Token.Literal

/-!
# Doubles are written as literals

A decimal that is written out is a number literal, positional or with an exponent (`literal`). The
literal writes the decimal itself, with one exception: an integer that is written positionally has
its zeros and one place behind the point, which is another decimal with the same value. So a finite
double without a sign is written as a literal with its value (`exists_literal`).
-/

namespace Formula

/-! ## Digits -/

theorem isDigit_eq (c : Char) : isDigit c = c.isDigit := rfl

theorem digitsValue_eq (cs : List Char) : digitsValue cs = Nat.ofDigitChars 10 cs 0 := by
  simp only [digitsValue, Nat.ofDigitChars, Nat.mul_comm _ 10]
  rfl

theorem digitsValue_append (cs ds : List Char) :
    digitsValue (cs ++ ds) = 10 ^ ds.length * digitsValue cs + digitsValue ds := by
  rw [digitsValue_eq, Nat.ofDigitChars_append, Nat.ofDigitChars_eq_ofDigitChars_zero,
    ← digitsValue_eq, ← digitsValue_eq]

theorem digitsValue_zeros (k : Nat) : digitsValue (List.replicate k '0') = 0 := by
  rw [digitsValue_eq, Nat.ofDigitChars_replicate_zero, Nat.mul_zero]

/-- Zeros in front do not count. -/
theorem digitsValue_zeros_append (k : Nat) (cs : List Char) :
    digitsValue (List.replicate k '0' ++ cs) = digitsValue cs := by
  rw [digitsValue_append, digitsValue_zeros, Nat.mul_zero, Nat.zero_add]

/-- Zeros behind multiply by ten. -/
theorem digitsValue_append_zeros (cs : List Char) (k : Nat) :
    digitsValue (cs ++ List.replicate k '0') = digitsValue cs * 10 ^ k := by
  rw [digitsValue_append, digitsValue_zeros, List.length_replicate, Nat.add_zero, Nat.mul_comm]

theorem isDigit_of_mem_zeros {k : Nat} {c : Char} (h : c ∈ List.replicate k '0') : isDigit c := by
  rw [List.eq_of_mem_replicate h]
  decide

namespace Double

theorem digitsValue_decimalDigits (n : Nat) : digitsValue (decimalDigits n) = n := by
  rw [digitsValue_eq]
  exact Nat.ofDigitChars_ten_toDigits

theorem isDigit_of_mem_decimalDigits {n : Nat} {c : Char} (h : c ∈ decimalDigits n) :
    isDigit c := by
  rw [isDigit_eq]
  exact Nat.isDigit_of_mem_toDigits (by decide) (by decide) h

theorem decimalDigits_ne_nil (n : Nat) : decimalDigits n ≠ [] := Nat.toDigits_ne_nil

theorem digitsValue_padded (width n : Nat) : digitsValue (padded width n) = n := by
  rw [padded, digitsValue_zeros_append, digitsValue_decimalDigits]

theorem isDigit_of_mem_padded {width n : Nat} {c : Char} (h : c ∈ padded width n) :
    isDigit c := by
  rcases List.mem_append.mp h with h | h
  · exact isDigit_of_mem_zeros h
  · exact isDigit_of_mem_decimalDigits h

theorem padded_ne_nil (width n : Nat) : padded width n ≠ [] :=
  List.append_ne_nil_of_right_ne_nil _ (decimalDigits_ne_nil n)

/-! ## The literals that are written -/

/-- The literal that is written positionally. -/
def positionalLiteral (digits : List Char) (point : Int) : Literal :=
  if point ≤ 0 then ⟨['0'], some (List.replicate (-point).toNat '0' ++ digits), none⟩
  else
    let whole := digits.take point.toNat
    let part := digits.drop point.toNat
    ⟨whole ++ List.replicate (point.toNat - whole.length) '0',
      some (if part = [] then ['0'] else part), none⟩

/-- The literal that is written with an exponent. -/
def exponentialLiteral (l : Layout) (digits : List Char) (position : Int) : Literal :=
  let part := digits.drop 1
  ⟨digits.take 1, if part = [] then none else some part,
    some ('e', some (if position < 0 then '-' else '+'),
      padded l.exponentWidth position.natAbs)⟩

/-- The literal that a layout writes a decimal as. -/
def literal (l : Layout) (d : Decimal) : Literal :=
  let digits := decimalDigits d.digits
  let position := (digits.length : Int) + d.exponent - 1
  if l.leastPosition ≤ position ∧ position ≤ l.greatestPosition then
    positionalLiteral digits (position + 1)
  else exponentialLiteral l digits position

theorem spelling_positionalLiteral (digits : List Char) (point : Int) :
    (positionalLiteral digits point).spelling = positional digits point := by
  unfold positionalLiteral positional
  split
  · simp [Literal.spelling, Literal.mantissa]
  · simp [Literal.spelling, Literal.mantissa]

theorem spelling_exponentialLiteral (l : Layout) (digits : List Char) (position : Int) :
    (exponentialLiteral l digits position).spelling = exponential l digits position := by
  unfold exponentialLiteral exponential
  simp only
  split
  · simp [Literal.spelling, Literal.mantissa]
  · simp [Literal.spelling, Literal.mantissa]

theorem spelling_literal (l : Layout) (d : Decimal) :
    (literal l d).spelling = decimalText l d := by
  unfold literal decimalText
  simp only
  split
  · exact spelling_positionalLiteral _ _
  · exact spelling_exponentialLiteral _ _ _

section

variable {digits : List Char} (hne : digits ≠ []) (hdigits : ∀ c ∈ digits, isDigit c)

include hne hdigits

theorem isNumber_positionalLiteral (point : Int) : (positionalLiteral digits point).IsNumber := by
  unfold positionalLiteral
  split
  · refine ⟨⟨?_, ?_, nofun, nofun, nofun⟩, .inl (List.cons_ne_nil _ _), ?_, nofun⟩
    · intro c hc
      rw [List.mem_singleton.mp hc]
      decide
    · rintro _ ⟨⟩ c hc
      exact (List.mem_append.mp hc).elim isDigit_of_mem_zeros (hdigits c)
    · simp [hne]
  · refine ⟨⟨?_, ?_, nofun, nofun, nofun⟩, .inr (by simp), ?_, nofun⟩
    · intro c hc
      exact (List.mem_append.mp hc).elim (fun hc => hdigits c (List.mem_of_mem_take hc))
        isDigit_of_mem_zeros
    · rintro _ ⟨⟩ c hc
      split at hc
      · rw [List.mem_singleton.mp hc]
        decide
      · exact hdigits c (List.mem_of_mem_drop hc)
    · intro h
      have h' := Option.some.inj h
      split at h'
      · cases h'
      · next hpart => exact hpart h'

theorem isNumber_exponentialLiteral (l : Layout) (position : Int) :
    (exponentialLiteral l digits position).IsNumber := by
  refine ⟨⟨?_, ?_, ?_, ?_, ?_⟩, ?_, ?_, ?_⟩
  · exact fun c hc => hdigits c (List.mem_of_mem_take hc)
  · intro ds hds c hc
    simp only [exponentialLiteral] at hds
    split at hds
    · cases hds
    · cases hds
      exact hdigits c (List.mem_of_mem_drop hc)
  · rintro _ ⟨⟩
    exact .inl rfl
  · rintro _ ⟨⟩
    show some (if position < 0 then '-' else '+') = _ ∨ _
    split
    · exact .inr (.inr rfl)
    · exact .inr (.inl rfl)
  · rintro _ ⟨⟩ c hc
    exact isDigit_of_mem_padded hc
  · obtain ⟨d, ds, rfl⟩ := List.exists_cons_of_ne_nil hne
    exact .inl (List.cons_ne_nil _ _)
  · simp only [exponentialLiteral]
    split
    · nofun
    · next hpart => exact fun h => hpart (Option.some.inj h)
  · rintro _ ⟨⟩
    exact padded_ne_nil _ _

end

theorem isNumber_literal (l : Layout) (d : Decimal) : (literal l d).IsNumber := by
  have hne := decimalDigits_ne_nil d.digits
  have hdigits : ∀ c ∈ decimalDigits d.digits, isDigit c :=
    fun c hc => isDigit_of_mem_decimalDigits hc
  unfold literal
  simp only
  split
  · exact isNumber_positionalLiteral hne hdigits _
  · exact isNumber_exponentialLiteral hne hdigits l _

/-! ## Their decimals -/

section

variable {digits : List Char}

/-- With places behind the point, the literal writes the decimal itself. -/
theorem decimal_positionalLiteral_of_neg {e : Int} (he : e < 0) :
    (positionalLiteral digits (digits.length + e)).decimal = ⟨digitsValue digits, e⟩ := by
  unfold positionalLiteral
  split
  · next hpoint =>
    have hvalue : digitsValue ('0' :: (List.replicate (-(digits.length + e)).toNat '0' ++ digits))
        = digitsValue digits := digitsValue_zeros_append (_ + 1) digits
    simp only [Literal.decimal, Literal.exponentValue, Option.getD_some, List.singleton_append,
      hvalue, List.length_append, List.length_replicate]
    congr 1
    omega
  · next hpoint =>
    have hpart : digits.drop (digits.length + e).toNat ≠ [] := by
      rw [Ne, List.drop_eq_nil_iff]
      omega
    have htake : (digits.take (digits.length + e).toNat).length = (digits.length + e).toNat := by
      rw [List.length_take]
      omega
    simp only [Literal.decimal, Literal.exponentValue, Option.getD_some, if_neg hpart, htake,
      Nat.sub_self, List.replicate_zero, List.append_nil, List.take_append_drop, List.length_drop]
    congr 1
    omega

/-- An integer has one place behind the point. -/
theorem decimal_positionalLiteral_of_nonneg (hne : digits ≠ []) (e : Nat) :
    (positionalLiteral digits (digits.length + e)).decimal
      = ⟨digitsValue digits * 10 ^ (e + 1), -1⟩ := by
  have hlength := List.length_pos_iff.mpr hne
  have hpoint : ((digits.length : Int) + e).toNat = digits.length + e := by omega
  have hpart : digits.drop (digits.length + e) = [] := List.drop_of_length_le (by omega)
  have htake : digits.take (digits.length + e) = digits := List.take_of_length_le (by omega)
  have hzeros : List.replicate e '0' ++ ['0'] = List.replicate (e + 1) '0' :=
    (List.replicate_succ').symm
  rw [positionalLiteral, if_neg (by omega)]
  simp only [hpoint, hpart, htake, Literal.decimal, Literal.exponentValue, if_true,
    Option.getD_some, Nat.add_sub_cancel_left, List.append_assoc, hzeros, digitsValue_append_zeros]
  rfl

theorem exponentValue_exponentialLiteral (l : Layout) (digits : List Char) (position : Int) :
    (exponentialLiteral l digits position).exponentValue = position := by
  by_cases h : position < 0
  · have hexponent : (exponentialLiteral l digits position).exponent
        = some ('e', some '-', padded l.exponentWidth position.natAbs) := by
      simp [exponentialLiteral, h]
    rw [Literal.exponentValue, hexponent]
    show -(digitsValue _ : Int) = position
    rw [digitsValue_padded]
    omega
  · have hexponent : (exponentialLiteral l digits position).exponent
        = some ('e', some '+', padded l.exponentWidth position.natAbs) := by
      simp [exponentialLiteral, h]
    rw [Literal.exponentValue, hexponent]
    show (digitsValue _ : Int) = position
    rw [digitsValue_padded]
    omega

/-- An exponent makes up for the place of the point. -/
theorem decimal_exponentialLiteral (l : Layout) (hne : digits ≠ []) (e : Int) :
    (exponentialLiteral l digits (digits.length + e - 1)).decimal = ⟨digitsValue digits, e⟩ := by
  have hlength := List.length_pos_iff.mpr hne
  have hfraction : (exponentialLiteral l digits (digits.length + e - 1)).fraction.getD []
      = digits.drop 1 := by
    simp only [exponentialLiteral]
    split
    · next h => exact h.symm
    · rfl
  have hwhole : (exponentialLiteral l digits (digits.length + e - 1)).whole = digits.take 1 := rfl
  simp only [Literal.decimal, exponentValue_exponentialLiteral, hfraction, hwhole,
    List.take_append_drop, List.length_drop]
  congr 1
  omega

end

end Double

/-! ## Their values -/

/-- Zeros behind an integer, with one place behind the point, leave the value as it is. -/
theorem Decimal.toMagnitude_mul_pow (digits : Nat) {e : Nat} (he : e ≤ 400) :
    (mk (digits * 10 ^ (e + 1)) (-1)).toMagnitude = (mk digits e).toMagnitude := by
  by_cases h : digits = 0
  · rw [h, Nat.zero_mul, toMagnitude_zero, toMagnitude_zero]
  · have hdigits : digits * 10 ^ (e + 1) ≠ 0 :=
      Nat.mul_ne_zero h (Nat.ne_of_gt (Nat.pow_pos (by decide)))
    have hterms : digits * 10 ^ (e + 1) * Magnitude.unitsPerOne
        = digits * 10 ^ e * Magnitude.unitsPerOne * 10 := by
      rw [Nat.pow_succ, ← Nat.mul_assoc, Nat.mul_right_comm]
    show (mk _ (.negSucc 0)).toMagnitude = (mk digits (.ofNat e)).toMagnitude
    rw [toMagnitude_negSucc hdigits (by omega), toMagnitude_ofNat h he, hterms]
    exact Magnitude.ofRatio_mul_right _ 1 (by decide)

namespace Double

/-- **A decimal is written as a literal with its value.** -/
theorem toMagnitude_decimal_literal {l : Layout} (hl : l.greatestPosition ≤ 400) (d : Decimal) :
    (literal l d).decimal.toMagnitude = d.toMagnitude := by
  have hne := decimalDigits_ne_nil d.digits
  have hlength := List.length_pos_iff.mpr hne
  have hd : Decimal.mk (digitsValue (decimalDigits d.digits)) d.exponent = d := by
    rw [digitsValue_decimalDigits]
  unfold literal
  simp only
  split
  · next hposition =>
    rw [Int.sub_add_cancel]
    by_cases he : d.exponent < 0
    · rw [decimal_positionalLiteral_of_neg he, hd]
    · obtain ⟨e, hexp⟩ := Int.eq_ofNat_of_zero_le (Int.not_lt.mp he)
      rw [hexp] at hposition hd ⊢
      rw [decimal_positionalLiteral_of_nonneg hne, Decimal.toMagnitude_mul_pow _ (by omega), hd]
  · rw [decimal_exponentialLiteral l hne, hd]

/-- **A finite double without a sign is written as a literal with its value.** -/
theorem exists_literal {l : Layout} (hl : l.greatestPosition ≤ 400) {m : Magnitude}
    (hm : m ≠ .top) :
    ∃ w : Literal, w.IsNumber ∧ w.value = .num false m ∧
      w.spelling = (Double.num false m).textWith l := by
  refine ⟨literal l m.shortest, isNumber_literal l _, ?_, ?_⟩
  · rw [Literal.value, toMagnitude_decimal_literal hl, m.toMagnitude_shortest]
  · rw [spelling_literal, textWith, if_neg hm]
    rfl

end Double

end Formula
