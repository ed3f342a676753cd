import Mathlib.Data.List.Basic
import Formula.Kernel.Factorial
import Formula.Proofs.Double.Order

/-!
# One factorial

All ways to compute a factorial test their operand for the same thing (`elementHasFactorial_eq`,
`argumentHasFactorial_eq`) and multiply the same factors in the same order. They differ in where
they stop: at an infinite product, after the last factor, or after a fixed number of factors. None
of these makes a difference, since an infinite product stays as it is (`foldl_times_of_isInfinite`)
and the product of the fixed factors is infinite.
-/

namespace Formula.Double

/-! ## Products -/

/-- One more factor. -/
def times (acc : Double) (i : Nat) : Double := acc.mul (ofNat i)

/-- An infinite product stays as it is. -/
theorem times_of_isInfinite {acc : Double} (h : acc.isInfinite = true) {i : Nat} (hi : 0 < i) :
    acc.times i = acc := by
  cases acc with
  | nan => cases h
  | num s m =>
    obtain rfl : m = .top := of_decide_eq_true h
    simp [times, ofNat, mul, Magnitude.ofNat_ne_zero hi, show Magnitude.top ≠ .zero by decide]

theorem foldl_times_of_isInfinite {acc : Double} (h : acc.isInfinite = true) {factors : List Nat}
    (hpos : ∀ i ∈ factors, 0 < i) : factors.foldl times acc = acc := by
  induction factors with
  | nil => rfl
  | cons i factors ih =>
    rw [List.foldl_cons, times_of_isInfinite h (hpos i List.mem_cons_self)]
    exact ih fun j hj => hpos j (List.mem_cons_of_mem _ hj)

/-- **To stop at an infinite product changes nothing.** -/
theorem productFrom_eq (k : Nat) {i : Nat} (hi : 0 < i) (acc : Double) :
    productFrom k i acc = (List.range' i k).foldl times acc := by
  induction k generalizing i acc with
  | zero => rfl
  | succ k ih =>
    rw [productFrom]
    split
    · next h =>
      refine (foldl_times_of_isInfinite h ?_).symm
      intro j hj
      exact Nat.lt_of_lt_of_le hi (List.mem_range'_1.mp hj).1
    · exact ih (Nat.succ_pos i) _

/-- The last finite product, which is that of the numbers up to 170. -/
theorem foldl_times_upTo_170 :
    (List.range' 2 169).foldl times one = .ofBits 0x7fa4ab7864418635 := by
  decide +kernel

/-- **The product of the fixed factors is infinite.** -/
theorem foldl_factorialFactors : factorialFactors.foldl times one = infinity := by
  rw [factorialFactors, show 170 = 169 + 1 from rfl, List.range'_concat, List.foldl_append,
    foldl_times_upTo_170]
  decide +kernel

theorem isInfinite_foldl_factorialFactors :
    (factorialFactors.foldl times one).isInfinite = true := by
  rw [foldl_factorialFactors]
  rfl

/-! ## Operands that have a factorial -/

/-- A finite double equals its floor if it has no fractional part. -/
theorem equalsFloor_self {x : Double} (h : x.isFinite = true) : x.equalsFloor x = x.isInteger := by
  cases x with
  | nan => cases h
  | num s m =>
    obtain ⟨u, hu⟩ : ∃ u, (num s m).units? = some u := ⟨_, if_neg (of_decide_eq_true h)⟩
    rw [equalsFloor, isInteger, floor?, hu]
    refine decide_eq_decide.mpr ?_
    rw [← Int.dvd_iff_emod_eq_zero]
    constructor
    · intro heq
      exact ⟨_, heq.trans (Int.mul_comm _ _)⟩
    · intro hdvd
      exact (Int.fdiv_mul_cancel hdvd).symm

/-- A number is below zero or not. -/
theorem zero_le_eq {x : Double} (h : x.isFinite = true) : zero.le x = !x.lt zero := by
  cases x with
  | nan => cases h
  | num s m =>
    obtain ⟨r, hr⟩ : ∃ r, (num s m).rank? = some r := ⟨_, rfl⟩
    simp only [le, lt, compares, hr, show zero.rank? = some 0 from rfl]
    rw [← decide_not]
    exact decide_eq_decide.mpr Int.not_lt.symm

/-- **A number has a factorial if it is a natural number.** -/
theorem hasFactorial_eq (x : Double) :
    x.hasFactorial = (x.isFinite && !x.lt zero && x.isInteger) := by
  cases h : x.isFinite with
  | false => simp [hasFactorial, h]
  | true => simp [hasFactorial, h, equalsFloor_self h]

/-- **An element is tested for the same thing.** -/
theorem elementHasFactorial_eq (x : Double) : x.elementHasFactorial = x.hasFactorial := by
  rw [hasFactorial_eq]
  cases h : x.isFinite with
  | false => simp [elementHasFactorial, h]
  | true => simp [elementHasFactorial, h, equalsFloor_self h, zero_le_eq h, Bool.and_comm]

/-- **An argument is tested for the same thing.** -/
theorem argumentHasFactorial_eq (x : Double) : x.argumentHasFactorial = x.hasFactorial := by
  rw [hasFactorial_eq]
  cases h : x.isFinite with
  | false => simp [argumentHasFactorial, h]
  | true => simp [argumentHasFactorial, h, equalsFloor_self h, zero_le_eq h, Bool.and_comm]

/-- A number that is not negative counts by its magnitude alone. -/
theorem rank?_and_units?_of_not_lt_zero {s : Bool} {m : Magnitude} (hm : m ≠ .top)
    (h : (num s m).lt zero = false) :
    (num s m).rank? = some (m.place : Int) ∧ (num s m).units? = some (m.units : Int) := by
  cases s with
  | false => exact ⟨rfl, if_neg hm⟩
  | true =>
    have hnot : ¬ -(m.place : Int) < 0 := of_decide_eq_false h
    obtain rfl : m = .zero := by
      rcases m with ⟨p, hp⟩
      obtain rfl : p = 0 := by
        dsimp only at hnot
        omega
      rfl
    refine ⟨rfl, ?_⟩
    rw [units?, if_neg hm, Magnitude.units_zero]
    rfl

/-- **An operand with a factorial is a natural number, and the fixed factors are compared with it
as such.** -/
theorem exists_of_hasFactorial {x : Double} (h : x.hasFactorial = true) :
    ∃ n : Nat, x.floor? = some (n : Int) ∧
      ∀ i ∈ factorialFactors, (ofNat i).le x = decide (i ≤ n) := by
  cases x with
  | nan => cases h
  | num s m =>
    simp only [hasFactorial_eq, Bool.and_eq_true, Bool.not_eq_true'] at h
    obtain ⟨⟨hfinite, hsign⟩, hinteger⟩ := h
    obtain ⟨hrank, hunits⟩ :=
      rank?_and_units?_of_not_lt_zero (of_decide_eq_true hfinite) hsign
    obtain ⟨n, hn⟩ : Magnitude.unitsPerOne ∣ m.units := by
      rw [isInteger, hunits] at hinteger
      exact Int.natCast_dvd_natCast.mp (Int.dvd_of_emod_eq_zero (of_decide_eq_true hinteger))
    have hone : 0 < Magnitude.unitsPerOne := by decide +kernel
    refine ⟨n, ?_, ?_⟩
    · rw [floor?, hunits, hn, Int.natCast_mul]
      exact congrArg some (Int.mul_fdiv_cancel_left _ (Int.natCast_ne_zero.mpr (Nat.ne_of_gt hone)))
    · intro i hi
      have hexact : (Magnitude.ofNat i).units = i * Magnitude.unitsPerOne := by
        refine Magnitude.units_ofNat ?_
        have := List.mem_range'_1.mp hi
        omega
      have hplace : (Magnitude.ofNat i).place ≤ m.place ↔ i ≤ n := by
        rw [← Magnitude.units_le_units_iff, hexact, hn, Nat.mul_comm,
          Nat.mul_le_mul_left_iff hone]
      rw [le, compares, hrank]
      exact decide_eq_decide.mpr (Int.ofNat_le.trans hplace)

/-! ## The fixed factors -/

/-- **Of the fixed factors exactly those up to the operand count.** -/
theorem foldl_factorialFactors_eq {f : Double → Nat → Double} {n : Nat}
    (hf : ∀ acc, ∀ i ∈ factorialFactors, f acc i = if i ≤ n then acc.times i else acc) :
    factorialFactors.foldl f one = productFrom (n - 1) 2 one := by
  rw [productFrom_eq _ Nat.two_pos]
  rcases Nat.le_total n 171 with hn | hn
  · -- the factors beyond the operand do not count
    have hsplit : factorialFactors
        = List.range' 2 (n - 1) ++ List.range' (2 + (n - 1)) (170 - (n - 1)) := by
      rw [factorialFactors, List.range'_append_1, show n - 1 + (170 - (n - 1)) = 170 by omega]
    have hcounts : (List.range' 2 (n - 1)).foldl f one
        = (List.range' 2 (n - 1)).foldl times one := by
      refine List.foldl_ext _ _ _ ?_
      intro acc i hi
      rw [hf acc i (hsplit ▸ List.mem_append_left _ hi), if_pos]
      have := List.mem_range'_1.mp hi
      omega
    have hbeyond : ∀ acc, ∀ i ∈ List.range' (2 + (n - 1)) (170 - (n - 1)), f acc i = acc := by
      intro acc i hi
      rw [hf acc i (hsplit ▸ List.mem_append_right _ hi), if_neg]
      have := List.mem_range'_1.mp hi
      omega
    rw [hsplit, List.foldl_append, hcounts, List.foldl_ext _ (fun acc _ => acc) _ hbeyond,
      List.foldl_fixed]
  · -- all fixed factors count, and those beyond them change nothing any more
    have hcounts : factorialFactors.foldl f one = factorialFactors.foldl times one := by
      refine List.foldl_ext _ _ _ ?_
      intro acc i hi
      rw [hf acc i hi, if_pos]
      have := List.mem_range'_1.mp hi
      omega
    have hsplit : List.range' 2 (n - 1) = factorialFactors ++ List.range' 172 (n - 171) := by
      rw [factorialFactors, List.range'_append_1, show 170 + (n - 171) = n - 1 by omega]
    have hstays : (List.range' 172 (n - 171)).foldl times (factorialFactors.foldl times one)
        = factorialFactors.foldl times one := by
      refine foldl_times_of_isInfinite isInfinite_foldl_factorialFactors ?_
      intro i hi
      have := List.mem_range'_1.mp hi
      omega
    rw [hsplit, List.foldl_append, hcounts, hstays]

/-! ## The three factorials -/

/-- Without a factorial no factor counts. -/
theorem foldl_factorialFactors_nan (x : Double) :
    factorialFactors.foldl
      (fun acc i => if false && (ofNat i).le x then acc.mul (ofNat i) else acc) nan = nan :=
  List.foldl_fixed _

/-- **The factorial of an element is the factorial of the number.** -/
theorem factorialOfElement_eq (x : Double) : factorialOfElement x = factorial x := by
  unfold factorialOfElement factorial
  rw [elementHasFactorial_eq]
  cases h : x.hasFactorial with
  | false => exact foldl_factorialFactors_nan x
  | true =>
    obtain ⟨n, hn, hle⟩ := exists_of_hasFactorial h
    have hproduct := foldl_factorialFactors_eq (n := n)
      (f := fun acc i => if true && (ofNat i).le x then acc.mul (ofNat i) else acc)
      fun acc i hi => by simp [hle i hi, times]
    rw [hn]
    exact congrArg (fun product => if factorialLimit.lt x then infinity else product) hproduct

/-- **The factorial step by step is the factorial of the number.** -/
theorem factorialBySteps_eq (x : Double) : factorialBySteps x = factorial x := by
  unfold factorialBySteps factorial
  rw [argumentHasFactorial_eq]
  cases h : x.hasFactorial with
  | false => rfl
  | true =>
    obtain ⟨n, hn, hle⟩ := exists_of_hasFactorial h
    have hproduct := foldl_factorialFactors_eq (n := n)
      (f := fun acc i => if (ofNat i).le x then acc.mul (ofNat i) else acc)
      fun acc i hi => by simp [hle i hi, times]
    rw [hn]
    exact congrArg (fun product => if factorialLimit.lt x then infinity else product) hproduct

end Formula.Double
