import Mathlib.Tactic.FieldSimp
import Mathlib.Tactic.Ring
import Formula.Closure.Gradient
import Formula.Proofs.Double.Nearest
import Formula.Proofs.Kernel.Factorial

/-!
# Derivatives of records

What a derivative is can be said without saying how it is found: an argument has the slope 1, an
operation has the slope that its rule gives, and an argument without influence has the slope 0
(`Calculus.Differentiates`). Anything that finds derivatives may be put in the place of the backward
pass as long as it keeps to this.

The backward pass does. In exact arithmetic all that arrives is proportional to the sensitivity it
began with (`sum_arriving`), and so each operation passes on what its rule says; a binding follows
the chain rule (`slope_bind`). In any arithmetic nothing arrives at an argument that the record does
not reach (`arriving_of_not_reaches`). A factorial reaches nothing: its operand is only tested, and
the product is made of constants (`not_reaches_factorial`).
-/

namespace Formula

/-! ## Rules -/

/-- The arithmetic of the rational numbers. What it makes of the other operators is left open. -/
structure Calculus.Exact (C : Calculus ℚ) : Prop where
  zero : C.zero = 0
  one : C.one = 1
  neg (x : ℚ) : C.neg x = -x
  add (x y : ℚ) : C.binary .add x y = x + y
  subtract (x y : ℚ) : C.binary .subtract x y = x - y
  multiply (x y : ℚ) : C.binary .multiply x y = x * y
  divide (x y : ℚ) : C.binary .divide x y = x / y

/-- An argument has an influence on a value, other than through tests. -/
def Recorded.Reaches {α : Type} (position : Nat) : Recorded α → Prop
  | .leaf origin _ => origin = .argument position
  | .neg x _ | .call _ x _ => x.Reaches position
  | .binary _ x y _ | .choose _ _ x y | .bind x y => x.Reaches position ∨ y.Reaches position

/-- An argument without influence has the slope zero, in any arithmetic. -/
structure Calculus.Drops {α : Type} (C : Calculus α) (D : Nat → Recorded α → α) : Prop where
  unreached {i : Nat} {r : Recorded α} (h : ¬r.Reaches i) : D i r = C.zero

/-- The rules of differentiation by an argument in exact arithmetic. -/
structure Calculus.Differentiates (C : Calculus ℚ) (D : Nat → Recorded ℚ → ℚ) : Prop
    extends C.Drops D where
  argument (i : Nat) (v : ℚ) : D i (.leaf (.argument i) v) = 1
  neg (i : Nat) (x : Recorded ℚ) (v : ℚ) : D i (.neg x v) = -D i x
  add (i : Nat) (x y : Recorded ℚ) (v : ℚ) : D i (.binary .add x y v) = D i x + D i y
  subtract (i : Nat) (x y : Recorded ℚ) (v : ℚ) : D i (.binary .subtract x y v) = D i x - D i y
  multiply (i : Nat) (x y : Recorded ℚ) (v : ℚ) :
    D i (.binary .multiply x y v) = D i x * y.value + x.value * D i y
  divide (i : Nat) (x y : Recorded ℚ) (v : ℚ) (hy : y.value ≠ 0) :
    D i (.binary .divide x y v) = (D i x * y.value - x.value * D i y) / y.value ^ 2

namespace Recorded

/-! ## Without influence -/

section

variable {α : Type} (C : Calculus α) {i : Nat}

theorem not_reaches_constant (v : Double) : ¬(constant C v).Reaches i := nofun

/-- **Nothing arrives at an argument without influence.** -/
theorem arriving_of_not_reaches {r : Recorded α} (h : ¬r.Reaches i) (s : α) :
    r.arriving C (.argument i) s = [] := by
  induction r generalizing s with
  | leaf origin v => exact if_neg h
  | neg x v ih | call f x v ih => exact ih h _
  | binary b x y v ihx ihy =>
    obtain ⟨hx, hy⟩ := not_or.mp h
    rw [arriving, ihx hx, ihy hy]
    rfl
  | choose tested outcome x y _ ihx ihy =>
    obtain ⟨hx, hy⟩ := not_or.mp h
    rw [arriving, ihx hx, ihy hy]
    rfl
  | bind x body ihx ihbody =>
    obtain ⟨hx, hbody⟩ := not_or.mp h
    rw [arriving, if_neg nofun, ihx hx, ihbody hbody]
    rfl

/-- The backward pass drops arguments without influence. -/
theorem drops_derivative : C.Drops (derivative C) where
  unreached h := by
    rw [derivative, arriving_of_not_reaches C h]
    rfl

/-- A round of a factorial reaches no more than the product so far does. -/
theorem not_reaches_factorialRound {product : Recorded α} (h : ¬product.Reaches i)
    (x : Recorded α) (k : Nat) : ¬(factorialRound C x product k).Reaches i := by
  simp [factorialRound, times, constant, Reaches, h]

/-- **A factorial reaches no argument**, whatever its operand is. -/
theorem not_reaches_factorial (x : Recorded α) : ¬(factorial C x).Reaches i := by
  have hrounds : ∀ (factors : List Nat) {product : Recorded α}, ¬product.Reaches i →
      ¬(factors.foldl (factorialRound C x) product).Reaches i := by
    intro factors
    induction factors with
    | nil => exact id
    | cons k factors ih => exact fun h => ih (not_reaches_factorialRound C h x k)
  have hproduct : ¬(factorialProduct C x).Reaches i := hrounds _ (not_reaches_constant C .one)
  simp [factorial, constant, Reaches, hproduct]

end

/-! ## In exact arithmetic -/

/-- What a quotient passes on, by the quotient rule. -/
theorem quotient_rule (x y dx dy : ℚ) (hy : y ≠ 0) :
    1 / y * dx + -(1 * (1 / (y * y)) * x) * dy = (dx * y - x * dy) / y ^ 2 := by
  field_simp
  ring

section

variable {C : Calculus ℚ} (hC : C.Exact)

include hC

theorem total_eq_sum (l : List ℚ) : C.total l = l.sum := by
  have hadd : C.add = (· + ·) := funext fun x => funext (hC.add x)
  cases l with
  | nil => exact hC.zero
  | cons s rest =>
    show rest.foldl C.add s = (s :: rest).sum
    rw [hadd, List.sum_eq_foldl, List.foldl_cons, zero_add]

/-- What a function passes on is proportional to the sensitivity. -/
theorem passCall_eq (f : NamedFunction) (x v s : ℚ) :
    C.passCall f x v s = s * C.passCall f x v 1 := by
  cases f <;> simp only [Calculus.passCall, Calculus.mul, Calculus.div, hC.multiply, hC.divide,
    hC.neg] <;> ring

/-- What a binary operation passes on is proportional to the sensitivity. -/
theorem passLeft_eq (b : BinaryOp) (x y s : ℚ) : C.passLeft b x y s = s * C.passLeft b x y 1 := by
  cases b <;> simp only [Calculus.passLeft, Calculus.mul, Calculus.div, hC.multiply, hC.divide] <;>
    ring

theorem passRight_eq (b : BinaryOp) (x y v s : ℚ) :
    C.passRight b x y v s = s * C.passRight b x y v 1 := by
  cases b <;> simp only [Calculus.passRight, Calculus.mul, Calculus.div, hC.multiply, hC.divide,
    hC.neg] <;> ring

/-- **What arrives is proportional to the sensitivity.** -/
theorem sum_arriving (o : Origin) (r : Recorded ℚ) (s : ℚ) :
    (r.arriving C o s).sum = s * (r.arriving C o 1).sum := by
  induction r generalizing o s with
  | leaf origin v => by_cases h : origin = o <;> simp [arriving, h]
  | neg x v ih =>
    rw [arriving, arriving, ih, ih o (C.neg 1), hC.neg, hC.neg]
    ring
  | call f x v ih =>
    rw [arriving, arriving, ih, ih o (C.passCall f x.value v 1), passCall_eq hC]
    ring
  | binary b x y v ihx ihy =>
    rw [arriving, arriving, List.sum_append, List.sum_append, ihx, ihy,
      ihx o (C.passLeft b x.value y.value 1), ihy o (C.passRight b x.value y.value v 1),
      passLeft_eq hC, passRight_eq hC]
    ring
  | choose tested outcome x y _ ihx ihy =>
    cases outcome <;>
      simp only [arriving, List.sum_append, Bool.false_eq_true, if_true, if_false, hC.zero]
    · rw [ihx o 0, ihy]
      ring
    · rw [ihx, ihy o 0]
      ring
  | bind x body ihx ihbody =>
    simp only [arriving, List.sum_append, total_eq_sum hC]
    rw [ihx o (body.arriving C .bound s).sum, ihx o (body.arriving C .bound 1).sum,
      ihbody .bound s]
    by_cases h : o = .bound
    · rw [if_pos h, if_pos h, List.sum_nil]
      ring
    · rw [if_neg h, if_neg h, ihbody o s]
      ring

/-- The slope of a value by what comes from an origin. -/
def slope (C : Calculus ℚ) (o : Origin) (r : Recorded ℚ) : ℚ := (r.arriving C o 1).sum

theorem derivative_eq_slope (i : Nat) (r : Recorded ℚ) :
    derivative C i r = slope C (.argument i) r := by
  rw [derivative, total_eq_sum hC, hC.one, slope]

/-- **A binding follows the chain rule.** -/
theorem slope_bind {o : Origin} (ho : o ≠ .bound) (x body : Recorded ℚ) :
    slope C o (.bind x body) = slope C o body + slope C .bound body * slope C o x := by
  rw [slope, arriving, List.sum_append, if_neg ho, total_eq_sum hC, sum_arriving hC o x]
  rfl

/-- A choice has the slope of its branch. -/
theorem slope_choose (o : Origin) (tested : Recorded ℚ) (outcome : Bool) (x y : Recorded ℚ) :
    slope C o (.choose tested outcome x y) = if outcome then slope C o x else slope C o y := by
  have hnone : ∀ r : Recorded ℚ, (r.arriving C o 0).sum = 0 := fun r => by
    rw [sum_arriving hC, zero_mul]
  cases outcome <;> simp [slope, arriving, hC.zero, hnone]

/-- **The backward pass follows the rules.** -/
theorem differentiates_derivative : C.Differentiates (derivative C) where
  toDrops := drops_derivative C
  argument i v := by
    rw [derivative_eq_slope hC, slope, arriving, if_pos rfl, List.sum_singleton]
  neg i x v := by
    rw [derivative_eq_slope hC, derivative_eq_slope hC, slope, arriving, sum_arriving hC, hC.neg,
      slope]
    ring
  add i x y v := by
    simp only [derivative_eq_slope hC, slope, arriving, List.sum_append, Calculus.passLeft,
      Calculus.passRight]
  subtract i x y v := by
    simp only [derivative_eq_slope hC, slope, arriving, List.sum_append, Calculus.passLeft,
      Calculus.passRight, hC.neg]
    rw [sum_arriving hC _ y]
    ring
  multiply i x y v := by
    simp only [derivative_eq_slope hC, slope, arriving, List.sum_append, Calculus.passLeft,
      Calculus.passRight, Calculus.mul, hC.multiply]
    rw [sum_arriving hC _ x, sum_arriving hC _ y]
    ring
  divide i x y v hy := by
    simp only [derivative_eq_slope hC, slope, arriving, List.sum_append, Calculus.passLeft,
      Calculus.passRight, Calculus.mul, Calculus.div, Calculus.square, hC.one, hC.neg,
      hC.multiply, hC.divide]
    rw [sum_arriving hC _ x, sum_arriving hC _ y]
    exact quotient_rule _ _ _ _ hy

end

/-! ## Values -/

/-- The value of the product, round by round. -/
theorem value_foldl_factorialRound (C : Calculus Double) (x : Recorded Double)
    (factors : List Nat) (product : Recorded Double) :
    (factors.foldl (factorialRound C x) product).value = factors.foldl (fun acc i =>
      if C.atLeast (.ofNat i) x.value then C.mul acc (C.constant (.ofNat i)) else acc)
      product.value := by
  induction factors generalizing product with
  | nil => rfl
  | cons i factors ih =>
    rw [List.foldl_cons, List.foldl_cons, ih]
    rfl

/-- **The record of a factorial has its value**, where factors are multiplied like any doubles. -/
theorem value_factorial {K : Kernels} (hK : K.binary .multiply = Double.mul)
    (x : Recorded Double) :
    (factorial K.calculus x).value = K.unaryBySteps .factorial x.value := by
  have hproduct : (factorialProduct K.calculus x).value = Double.factorialFactors.foldl
      (fun acc i => if (Double.ofNat i).le (K.compared x.value) then acc.mul (.ofNat i) else acc)
      .one := by
    have hmul : ∀ x y, K.calculus.mul x y = x.mul y := congrFun₂ hK
    rw [factorialProduct, value_foldl_factorialRound]
    simp only [hmul]
    rfl
  show _ = Double.factorialBySteps (K.compared x.value)
  simp only [factorial, value, hproduct, Double.factorialBySteps, Double.argumentHasFactorial]
  rfl

end Recorded

/-- Rational arithmetic on doubles as they are. -/
def Calculus.rational : Calculus ℚ where
  constant := Double.rational
  zero := 0
  one := 1
  neg x := -x
  call _ _ := 0
  binary
    | .add => (· + ·)
    | .subtract => (· - ·)
    | .multiply => (· * ·)
    | .divide => (· / ·)
    | .power => fun _ _ => 0
  isZero x := x = 0
  isFinite _ := true
  isWhole x := x.isInt
  atLeast c x := c.rational ≤ x
  above c x := c.rational < x

theorem Calculus.exact_rational : Calculus.rational.Exact :=
  ⟨rfl, rfl, fun _ => rfl, fun _ _ => rfl, fun _ _ => rfl, fun _ _ => rfl, fun _ _ => rfl⟩

end Formula
