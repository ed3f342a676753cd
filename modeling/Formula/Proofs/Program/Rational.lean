import Mathlib.Analysis.Calculus.Deriv.Add
import Mathlib.Analysis.Calculus.Deriv.Inv
import Mathlib.Analysis.Calculus.Deriv.Mul
import Mathlib.Analysis.Normed.Field.Lemmas
import Mathlib.Topology.Algebra.Module.ModuleTopology
import Formula.Proofs.Program.Transparency

/-!
# Rational formulas

Numbers and names under signs and the four operations have a value in the rational numbers, once
numbers are read as such and names have values. Their derivative by a name follows the rules for
sums, products and quotients (`exactSlope`), and it is the derivative of the value as a function of
that name wherever no denominator is zero (`hasDerivAt_exactValue`).

To fold constants changes neither of them if each constant that was computed is read as what was
computed (`Folding.exactlyAlike_tree`).
-/

namespace Formula

namespace Tree

/-- Only signs and the four operations. -/
def Rational : Tree → Prop
  | .number _ | .name _ => True
  | .unary .plus t | .unary .minus t => t.Rational
  | .unary .factorial _ | .unary (.call _) _ | .binary .power _ _ => False
  | .binary .add l r | .binary .subtract l r | .binary .multiply l r | .binary .divide l r =>
    l.Rational ∧ r.Rational

theorem Rational.of_binary {b : BinaryOp} {l r : Tree} (h : (binary b l r).Rational) :
    b ≠ .power ∧ l.Rational ∧ r.Rational := by
  cases b with
  | add | subtract | multiply | divide => exact ⟨nofun, h.1, h.2⟩
  | power => exact h.elim

section

variable (read : Double → ℚ) (ρ : String → ℚ)

/-- The rational value. Operators that are not rational count as 0. -/
def exactValue : Tree → ℚ
  | .number v => read v
  | .name word => ρ word
  | .unary .plus t => t.exactValue
  | .unary .minus t => -t.exactValue
  | .unary .factorial _ | .unary (.call _) _ | .binary .power _ _ => 0
  | .binary .add l r => l.exactValue + r.exactValue
  | .binary .subtract l r => l.exactValue - r.exactValue
  | .binary .multiply l r => l.exactValue * r.exactValue
  | .binary .divide l r => l.exactValue / r.exactValue

/-- No denominator is zero. -/
def DefinedAt : Tree → Prop
  | .number _ | .name _ => True
  | .unary _ t => t.DefinedAt
  | .binary b l r => l.DefinedAt ∧ r.DefinedAt ∧ (b = .divide → r.exactValue read ρ ≠ 0)

/-- The formal derivative by a name: each occurrence counts, and all other names are constants. -/
def exactSlope (name : String) : Tree → ℚ
  | .number _ => 0
  | .name word => if word = name then 1 else 0
  | .unary .plus t => t.exactSlope name
  | .unary .minus t => -t.exactSlope name
  | .unary .factorial _ | .unary (.call _) _ | .binary .power _ _ => 0
  | .binary .add l r => l.exactSlope name + r.exactSlope name
  | .binary .subtract l r => l.exactSlope name - r.exactSlope name
  | .binary .multiply l r =>
    l.exactSlope name * r.exactValue read ρ + l.exactValue read ρ * r.exactSlope name
  | .binary .divide l r =>
    (l.exactSlope name * r.exactValue read ρ - l.exactValue read ρ * r.exactSlope name)
      / r.exactValue read ρ ^ 2

end

variable {read : Double → ℚ} {ρ : String → ℚ} {name : String}

/-- A name that does not occur is a constant like any other. -/
theorem exactSlope_of_not_mem {t : Tree} (h : name ∉ t.names) : t.exactSlope read ρ name = 0 := by
  induction t with
  | number v => rfl
  | name word =>
    refine if_neg ?_
    rintro rfl
    exact h List.mem_cons_self
  | unary u t ih =>
    cases u with
    | plus => exact ih h
    | minus => rw [exactSlope, ih h, neg_zero]
    | factorial | call f => rfl
  | binary b l r ihl ihr =>
    have hl := ihl fun hmem => h (List.mem_append_left _ hmem)
    have hr := ihr fun hmem => h (List.mem_append_right _ hmem)
    cases b <;> simp [exactSlope, hl, hr]

/-- **The formal derivative is the derivative** of the value by the name, where all other names keep
their values. -/
theorem hasDerivAt_exactValue {t : Tree} (ht : t.Rational) (hdefined : t.DefinedAt read ρ) :
    HasDerivAt (fun x => t.exactValue read (Function.update ρ name x))
      (t.exactSlope read ρ name) (ρ name) := by
  induction t with
  | number v => exact hasDerivAt_const _ _
  | name word =>
    by_cases h : word = name
    · subst h
      simpa [exactValue, exactSlope] using hasDerivAt_id' (ρ word)
    · simpa [exactValue, exactSlope, h] using hasDerivAt_const (ρ name) (ρ word)
  | unary u t ih =>
    cases u with
    | plus => exact ih ht hdefined
    | minus => exact (ih ht hdefined).neg
    | factorial | call f => exact ht.elim
  | binary b l r ihl ihr =>
    obtain ⟨hl, hr, hdivides⟩ := hdefined
    cases b with
    | add => exact (ihl ht.1 hl).add (ihr ht.2 hr)
    | subtract => exact (ihl ht.1 hl).sub (ihr ht.2 hr)
    | multiply =>
      refine ((ihl ht.1 hl).mul (ihr ht.2 hr)).congr_deriv ?_
      rw [Function.update_eq_self]
      rfl
    | divide =>
      have hne : r.exactValue read (Function.update ρ name (ρ name)) ≠ 0 := by
        rw [Function.update_eq_self]
        exact hdivides rfl
      refine ((ihl ht.1 hl).div (ihr ht.2 hr) hne).congr_deriv ?_
      rw [Function.update_eq_self]
      rfl
    | power => exact ht.elim

end Tree

/-! ## Folding -/

/-- A rational tree stays one when its constants are folded. -/
theorem Tree.Rational.tree {t : Tree} (h : t.Rational) (F : Folding) : (F.tree t).Rational := by
  induction t with
  | number v => trivial
  | name word => trivial
  | unary u t ih =>
    rw [Folding.tree]
    rcases F.unary_cases u (F.tree t) with ⟨rfl, hplus⟩ | ⟨-, hunary | ⟨-, x, -, hfolded⟩⟩
    · rw [hplus]
      exact ih h
    · rw [hunary]
      cases u with
      | plus | minus => exact ih h
      | factorial | call f => exact h.elim
    · rw [hfolded]
      trivial
  | binary b l r ihl ihr =>
    rw [Folding.tree]
    rcases F.binary_cases b (F.tree l) (F.tree r) with hbinary | ⟨-, x, y, -, -, hfolded⟩
    · rw [hbinary]
      cases b with
      | add | subtract | multiply | divide => exact ⟨ihl h.1, ihr h.2⟩
      | power => exact h.elim
    · rw [hfolded]
      trivial

/-- Each constant that is computed when a tree is folded is read as the value of what it stands
for. -/
def Folding.ExactOn (F : Folding) (read : Double → ℚ) : Tree → Prop
  | .number _ | .name _ => True
  | .unary u t => F.ExactOn read t ∧
    ∀ v, F.tree (.unary u t) = .number v → ∀ ρ, read v = (Tree.unary u t).exactValue read ρ
  | .binary b l r => F.ExactOn read l ∧ F.ExactOn read r ∧
    ∀ v, F.tree (.binary b l r) = .number v → ∀ ρ, read v = (Tree.binary b l r).exactValue read ρ

/-- A tree that has taken the place of another one in exact computations. -/
structure Tree.ExactlyAlike (read : Double → ℚ) (ρ : String → ℚ) (name : String) (t u : Tree) :
    Prop where
  rational (h : t.Rational) : u.Rational
  defined (h : t.DefinedAt read ρ) : u.DefinedAt read ρ
  value : u.exactValue read ρ = t.exactValue read ρ
  slope : u.exactSlope read ρ name = t.exactSlope read ρ name

namespace Tree.ExactlyAlike

variable {read : Double → ℚ} {ρ : String → ℚ} {name : String} {t t' l l' r r' : Tree}

theorem refl (t : Tree) : ExactlyAlike read ρ name t t := ⟨id, id, rfl, rfl⟩

theorem unary (h : ExactlyAlike read ρ name t t') (u : UnaryOp) :
    ExactlyAlike read ρ name (.unary u t) (.unary u t') := by
  obtain ⟨hrational, hdefined, hvalue, hslope⟩ := h
  cases u with
  | plus => exact ⟨hrational, hdefined, hvalue, hslope⟩
  | minus =>
    exact ⟨hrational, hdefined, by simp only [exactValue, hvalue],
      by simp only [exactSlope, hslope]⟩
  | factorial | call f => exact ⟨False.elim, hdefined, rfl, rfl⟩

theorem binary (hl : ExactlyAlike read ρ name l l') (hr : ExactlyAlike read ρ name r r')
    (b : BinaryOp) : ExactlyAlike read ρ name (.binary b l r) (.binary b l' r') where
  rational h := by
    cases b with
    | add | subtract | multiply | divide => exact ⟨hl.rational h.1, hr.rational h.2⟩
    | power => exact h.elim
  defined h := ⟨hl.defined h.1, hr.defined h.2.1, fun hb => hr.value ▸ h.2.2 hb⟩
  value := by cases b <;> simp only [exactValue, hl.value, hr.value]
  slope := by cases b <;> simp only [exactSlope, hl.value, hr.value, hl.slope, hr.slope]

/-- A constant in place of a tree without names. -/
theorem number {v : Double} (hvalue : read v = t.exactValue read ρ) (hnames : t.names = []) :
    ExactlyAlike read ρ name t (.number v) where
  rational _ := trivial
  defined _ := trivial
  value := hvalue
  slope := by
    rw [exactSlope_of_not_mem (t := t) (by simp [hnames])]
    rfl

end Tree.ExactlyAlike

namespace Folding

variable {F : Folding} {read : Double → ℚ}

/-- Without folding, only numbers become numbers. -/
theorem exactValue_of_tree_eq_number (hF : F.enabled = false) {t : Tree} {v : Double}
    (h : F.tree t = .number v) (ρ : String → ℚ) : read v = t.exactValue read ρ := by
  induction t with
  | number w =>
    cases h
    rfl
  | name word => cases h
  | unary u t ih =>
    rcases F.unary_cases u (F.tree t) with ⟨rfl, hplus⟩ | ⟨-, hunary | ⟨henabled, -⟩⟩
    · exact ih (hplus.symm.trans h)
    · cases hunary.symm.trans h
    · simp [hF] at henabled
  | binary b l r ihl ihr =>
    rcases F.binary_cases b (F.tree l) (F.tree r) with hbinary | ⟨henabled, -⟩
    · cases hbinary.symm.trans h
    · simp [hF] at henabled

/-- Without folding no constant is computed. -/
theorem exactOn_of_not_enabled (hF : F.enabled = false) (read : Double → ℚ) (t : Tree) :
    F.ExactOn read t := by
  induction t with
  | number v => trivial
  | name word => trivial
  | unary u t ih => exact ⟨ih, fun v hv => exactValue_of_tree_eq_number hF hv⟩
  | binary b l r ihl ihr => exact ⟨ihl, ihr, fun v hv => exactValue_of_tree_eq_number hF hv⟩

/-- **Folding makes no difference to exact computations** if its constants are read as what they
stand for. -/
theorem exactlyAlike_tree {t : Tree} (h : F.ExactOn read t) (ρ : String → ℚ) (name : String) :
    Tree.ExactlyAlike read ρ name t (F.tree t) := by
  -- a tree that becomes a number has no names, since folding leaves all names in place
  have hnumber : ∀ {s : Tree} {v : Double}, F.tree s = .number v → s.names = [] := by
    intro s v hs
    rw [← F.names_tree s, hs]
    rfl
  induction t with
  | number v => exact .refl _
  | name word => exact .refl _
  | unary u t ih =>
    obtain ⟨ht, hconstant⟩ := h
    have halike := ih ht
    rcases F.unary_cases u (F.tree t) with ⟨rfl, hplus⟩ | ⟨-, hunary | ⟨-, x, -, hfolded⟩⟩
    · rw [tree, hplus]
      exact ⟨halike.rational, halike.defined, halike.value, halike.slope⟩
    · rw [tree, hunary]
      exact halike.unary u
    · rw [tree, hfolded]
      exact .number (hconstant _ hfolded ρ) (hnumber (s := .unary u t) hfolded)
  | binary b l r ihl ihr =>
    obtain ⟨hl, hr, hconstant⟩ := h
    rcases F.binary_cases b (F.tree l) (F.tree r) with hbinary | ⟨-, x, y, -, -, hfolded⟩
    · rw [tree, hbinary]
      exact (ihl hl).binary (ihr hr) b
    · rw [tree, hfolded]
      exact .number (hconstant _ hfolded ρ) (hnumber (s := .binary b l r) hfolded)

end Folding

end Formula
