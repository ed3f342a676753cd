import Formula.Proofs.Kernel.Factorial
import Formula.Proofs.Tensor.Index
import Formula.Tensor.Broadcast

/-!
# Factorials are products

The factorial of a natural number is the product of the numbers up to it, rounded after each factor
(`factorial_of_not_outside`), and where there is no natural number it is NaN
(`factorial_of_outside`). Nothing else shows: not that the product stops when it is infinite, and
not that it is not begun for large operands.

The stop can be seen only in the number of multiplications. The product up to 170 is finite and the
next one is infinite, so there are never more than 170 of them (`length_factorialProducts`).
-/

namespace Formula

namespace Double

/-! ## Which numbers have a factorial -/

/-- NaN, an infinity, a number below zero, or a number with a fractional part. -/
def OutsideFactorial (x : Double) : Prop :=
  x = nan ∨ x.isInfinite = true ∨ x.lt zero = true ∨
    ∃ u, x.units? = some u ∧ ¬(Magnitude.unitsPerOne : Int) ∣ u

theorem hasFactorial_eq_false_iff (x : Double) : x.hasFactorial = false ↔ x.OutsideFactorial := by
  cases x with
  | nan => exact ⟨fun _ => .inl rfl, fun _ => rfl⟩
  | num s m =>
    have hinteger : (num s m).isInteger = false ↔ (num s m).isInfinite = true ∨
        ∃ u, (num s m).units? = some u ∧ ¬(Magnitude.unitsPerOne : Int) ∣ u := by
      by_cases hm : m = .top
      · simp [isInteger, isInfinite, units?, hm]
      · obtain ⟨u, hu⟩ : ∃ u, (num s m).units? = some u := ⟨_, if_neg hm⟩
        have hfinite : (num s m).isInfinite = false := decide_eq_false hm
        rw [isInteger, hu, hfinite]
        show decide (u % (Magnitude.unitsPerOne : Int) = 0) = false ↔ _
        rw [decide_eq_false_iff_not, ← Int.dvd_iff_emod_eq_zero]
        constructor
        · intro h
          exact .inr ⟨u, rfl, h⟩
        · rintro (⟨⟨⟩⟩ | ⟨_, ⟨⟩, h⟩)
          exact h
    have hfinite : (num s m).isFinite = false ↔ (num s m).isInfinite = true := by
      simp [isFinite, isInfinite]
    simp only [hasFactorial_eq, Bool.and_eq_false_iff, Bool.not_eq_false', hfinite, hinteger,
      OutsideFactorial, reduceCtorEq, false_or]
    tauto

theorem hasFactorial_of_not_outside {x : Double} (h : ¬x.OutsideFactorial) :
    x.hasFactorial = true := by
  rwa [← hasFactorial_eq_false_iff, Bool.not_eq_false] at h

/-- The value is the natural number `n`; both zeros are 0. -/
def IsNatural (x : Double) (n : Nat) : Prop :=
  x.units? = some ((n * Magnitude.unitsPerOne : Nat) : Int)

theorem IsNatural.unique {x : Double} {n m : Nat} (hn : x.IsNatural n) (hm : x.IsNatural m) :
    n = m := by
  have hone : 0 < Magnitude.unitsPerOne := by decide +kernel
  have hunits := Option.some.inj (hn.symm.trans hm)
  exact Nat.eq_of_mul_eq_mul_right hone (Int.ofNat_inj.mp hunits)

/-- **An operand with a factorial is a natural number.** -/
theorem exists_isNatural_of_hasFactorial {x : Double} (h : x.hasFactorial = true) :
    ∃ n : Nat, x.IsNatural n ∧ x.floor? = some (n : Int) ∧
      ∀ i ∈ factorialFactors, (ofNat i).le x = decide (i ≤ n) := by
  obtain ⟨n, hfloor, hle⟩ := exists_of_hasFactorial h
  refine ⟨n, ?_, hfloor, hle⟩
  simp only [hasFactorial_eq, Bool.and_eq_true] at h
  obtain ⟨u, hu, hfdiv⟩ := Option.map_eq_some_iff.mp hfloor
  have hinteger := h.2
  rw [isInteger, hu] at hinteger
  have hdvd := Int.dvd_of_emod_eq_zero (of_decide_eq_true hinteger)
  rw [IsNatural, hu, ← Int.fdiv_mul_cancel hdvd, hfdiv, Int.natCast_mul]

theorem le_of_le_of_lt {a b x : Double} (hab : a.le b = true) (hbx : b.lt x = true) :
    a.le x = true := by
  unfold le lt compares at *
  cases ha : a.rank? <;> cases hb : b.rank? <;> cases hx : x.rank? <;> simp_all
  omega

/-! ## The product -/

/-- `1 * 2 * … * n`, rounded after each factor. -/
def roundedFactorial : Nat → Double
  | 0 => one
  | n + 1 => (roundedFactorial n).times (n + 1)

theorem roundedFactorial_succ (n : Nat) :
    roundedFactorial (n + 1) = (roundedFactorial n).times (n + 1) := rfl

theorem foldl_times_range' (n : Nat) :
    (List.range' 2 n).foldl times one = roundedFactorial (n + 1) := by
  induction n with
  | zero => decide +kernel
  | succ n ih =>
    rw [List.range'_concat, List.foldl_append, ih, roundedFactorial_succ (n + 1), Nat.one_mul,
      Nat.add_comm 2 n, List.foldl_cons, List.foldl_nil]

theorem productFrom_eq_roundedFactorial (n : Nat) :
    productFrom (n - 1) 2 one = roundedFactorial n := by
  rw [productFrom_eq _ Nat.two_pos, foldl_times_range']
  cases n with
  | zero => decide +kernel
  | succ n => rfl

/-- From 171 on the product is infinite. -/
theorem roundedFactorial_of_le {n : Nat} (hn : 171 ≤ n) : roundedFactorial n = infinity := by
  induction n, hn using Nat.le_induction with
  | base =>
    rw [← foldl_times_range']
    exact foldl_factorialFactors
  | succ n _ ih =>
    rw [roundedFactorial_succ, ih]
    exact times_of_isInfinite rfl (Nat.succ_pos n)

theorem factorial_of_outside {x : Double} (h : x.OutsideFactorial) : x.factorial = nan := by
  rw [factorial, (hasFactorial_eq_false_iff x).mpr h]
  rfl

/-- **The factorial of a number that has one is the product up to it.** -/
theorem factorial_of_not_outside {x : Double} (h : ¬x.OutsideFactorial) :
    ∃ n, x.IsNatural n ∧ x.factorial = roundedFactorial n := by
  have hhas := hasFactorial_of_not_outside h
  obtain ⟨n, hn, hfloor, hle⟩ := exists_isNatural_of_hasFactorial hhas
  refine ⟨n, hn, ?_⟩
  rw [factorial, hhas, hfloor]
  by_cases hlimit : factorialLimit.lt x = true
  · -- what lies beyond the limit lies beyond 171
    have h171 : (ofNat 171).le x = true := le_of_le_of_lt (by decide +kernel) hlimit
    rw [hle 171 (by decide)] at h171
    rw [if_pos hlimit, roundedFactorial_of_le (of_decide_eq_true h171)]
    rfl
  · rw [if_neg hlimit]
    exact productFrom_eq_roundedFactorial n

/-! ## Multiplications -/

/-- The products that `productFrom` forms one after the other, one for each multiplication. -/
def partialProducts : Nat → Nat → Double → List Double
  | 0, _, _ => []
  | k + 1, i, acc =>
    if acc.isInfinite then []
    else acc.mul (ofNat i) :: partialProducts k (i + 1) (acc.mul (ofNat i))

/-- The last of them is the result. -/
theorem productFrom_eq_getLastD (k i : Nat) (acc : Double) :
    productFrom k i acc = (partialProducts k i acc).getLastD acc := by
  induction k generalizing i acc with
  | zero => rfl
  | succ k ih =>
    rw [productFrom, partialProducts]
    split
    · rfl
    · rw [ih, List.getLastD_cons]

/-- There are as many as there are factors up to the first infinite product. -/
theorem length_partialProducts {i j : Nat} {acc : Double}
    (hfinite : ∀ l < j, ((List.range' i l).foldl times acc).isInfinite = false)
    (hinfinite : ((List.range' i j).foldl times acc).isInfinite = true) (k : Nat) :
    (partialProducts k i acc).length = min k j := by
  induction k generalizing i j acc with
  | zero => exact (Nat.zero_min j).symm
  | succ k ih =>
    rw [partialProducts]
    cases j with
    | zero =>
      rw [if_pos (show acc.isInfinite = true from hinfinite)]
      rfl
    | succ j =>
      have hacc : acc.isInfinite = false := hfinite 0 (Nat.succ_pos j)
      have hrest := ih (fun l hl => hfinite (l + 1) (Nat.succ_lt_succ hl)) hinfinite
      rw [hacc, if_neg Bool.false_ne_true, List.length_cons, Nat.succ_min_succ]
      exact congrArg (· + 1) hrest

/-- The products that are formed for the factorial of one number. -/
def factorialProducts (x : Double) : List Double :=
  if !x.hasFactorial then []
  else if factorialLimit.lt x then []
  else partialProducts ((x.floor?.getD 0).toNat - 1) 2 one

/-- Up to the limit, the factorial is the last product, or one if there is none. -/
theorem factorial_eq_getLastD {x : Double} (h : ¬x.OutsideFactorial)
    (hlimit : factorialLimit.lt x = false) :
    x.factorial = (factorialProducts x).getLastD one := by
  have hhas := hasFactorial_of_not_outside h
  rw [factorial, factorialProducts, hhas, hlimit]
  exact productFrom_eq_getLastD _ _ _

/-- No product up to 170 is infinite. -/
theorem isInfinite_foldl_times_of_lt {l : Nat} (hl : l < 170) :
    ((List.range' 2 l).foldl times one).isInfinite = false := by
  rw [← Bool.not_eq_true]
  intro hinfinite
  -- an infinite product would stay infinite up to 170
  have hsplit : List.range' 2 169 = List.range' 2 l ++ List.range' (2 + l) (169 - l) := by
    rw [List.range'_append_1, show l + (169 - l) = 169 by omega]
  have hstays := foldl_times_upTo_170
  rw [hsplit, List.foldl_append, foldl_times_of_isInfinite hinfinite] at hstays
  · rw [hstays] at hinfinite
    revert hinfinite
    decide +kernel
  · intro i hi
    have := (List.mem_range'_1.mp hi).1
    omega

/-- There are as many multiplications as factors, up to 170. -/
theorem length_factorialProducts {x : Double} {n : Nat} (h : ¬x.OutsideFactorial)
    (hn : x.IsNatural n) (hlimit : factorialLimit.lt x = false) :
    (factorialProducts x).length = min (n - 1) 170 := by
  have hhas := hasFactorial_of_not_outside h
  obtain ⟨m, hm, hfloor, -⟩ := exists_isNatural_of_hasFactorial hhas
  rw [factorialProducts, hhas, hlimit, hfloor, hm.unique hn]
  exact length_partialProducts (fun l hl => isInfinite_foldl_times_of_lt hl)
    isInfinite_foldl_factorialFactors (n - 1)

/-- **There are never more than 170 multiplications.** -/
theorem length_factorialProducts_le (x : Double) : (factorialProducts x).length ≤ 170 := by
  by_cases h : x.OutsideFactorial
  · rw [factorialProducts, (hasFactorial_eq_false_iff x).mpr h]
    exact Nat.zero_le 170
  · cases hlimit : factorialLimit.lt x with
    | true =>
      have hnone : factorialProducts x = [] := by simp [factorialProducts, hlimit]
      rw [hnone]
      exact Nat.zero_le 170
    | false =>
      obtain ⟨n, hn, -⟩ := factorial_of_not_outside h
      rw [length_factorialProducts h hn hlimit]
      exact Nat.min_le_right _ _

end Double

/-! ## Numbers, elements and arguments -/

/--
**There is one factorial.**

A number, an element of a tensor and an element of an argument have the same one: the product of the
numbers up to the operand, rounded after each factor, or NaN where the operand is no natural number.
No operand takes more than 170 multiplications. Up to the limit, there are as many as factors until
then, and the last product is the factorial.
-/
theorem factorial_eq_product (K : Kernels) (hK : K.compared = id) {x : Double} {t : Tensor Double}
    {ix : List Nat} (hix : ix ∈ Tensor.indices t.shape) (hx : t.get ix = x) :
    ((K.batch.unary .factorial t).shape = t.shape ∧
        (K.batch.unary .factorial t).get ix = K.scalar.unary .factorial x) ∧
      ((K.onArguments.unary .factorial t).shape = t.shape ∧
        (K.onArguments.unary .factorial t).get ix = K.scalar.unary .factorial x) ∧
      (x.OutsideFactorial → K.scalar.unary .factorial x = .nan) ∧
      (¬x.OutsideFactorial →
        ∃ n, x.IsNatural n ∧ K.scalar.unary .factorial x = .roundedFactorial n ∧
          (Double.factorialLimit.lt x = false →
            K.scalar.unary .factorial x = x.factorialProducts.getLastD .one ∧
              x.factorialProducts.length = min (n - 1) 170)) ∧
      x.factorialProducts.length ≤ 170 := by
  have hbatch : (K.batch.unary .factorial t).get ix = Double.factorialOfElement x := by
    rw [← hx]
    exact Tensor.get_map _ hix
  have hsteps : (K.onArguments.unary .factorial t).get ix = Double.factorialBySteps x := by
    have h : (K.onArguments.unary .factorial t).get ix
        = Double.factorialBySteps (K.compared (t.get ix)) := Tensor.get_map _ hix
    rw [h, hx, hK]
    rfl
  refine ⟨⟨rfl, ?_⟩, ⟨rfl, ?_⟩, Double.factorial_of_outside, ?_,
    Double.length_factorialProducts_le x⟩
  · rw [hbatch, Double.factorialOfElement_eq]
    rfl
  · rw [hsteps, Double.factorialBySteps_eq]
    rfl
  · intro h
    obtain ⟨n, hn, hproduct⟩ := Double.factorial_of_not_outside h
    exact ⟨n, hn, hproduct, fun hlimit =>
      ⟨Double.factorial_eq_getLastD h hlimit, Double.length_factorialProducts h hn hlimit⟩⟩

/-- A negative zero among other elements; its factorial is an empty product. -/
theorem factorial_eq_product_negative_zero :
    let t := Tensor.ofFn [2, 2] fun ix => if ix = [1, 0] then Double.num true .zero else .nan
    Kernels.standard.compared = id ∧ [1, 0] ∈ Tensor.indices t.shape ∧
      t.get [1, 0] = .num true .zero ∧
      (Kernels.standard.batch.unary .factorial t).get [1, 0] = .one ∧
      (Kernels.standard.onArguments.unary .factorial t).get [1, 0] = .one := by
  intro t
  have hix : [1, 0] ∈ Tensor.indices t.shape := by decide
  have hx : t.get [1, 0] = .num true .zero := by decide
  have hone : Kernels.standard.scalar.unary .factorial (.num true .zero) = .one := by
    decide +kernel
  obtain ⟨⟨-, hbatch⟩, ⟨-, hsteps⟩, -⟩ := factorial_eq_product .standard rfl hix hx
  exact ⟨rfl, hix, hx, hbatch.trans hone, hsteps.trans hone⟩

end Formula
