import Formula.Proofs.Program.Transparency

/-!
# Runs that are alike

Two runs of one program are alike if nothing that the program does tells them apart. A run reads the
slots that the program loads and no others, so other slots may differ (`exec_congr`). And it uses
its arithmetic only on what its instructions find on the stack, so two arithmetics may differ on
anything else (`exec_eq_exec`).
-/

namespace Formula.Arithmetic

variable {α : Type}

/-! ## Other slots -/

section

variable (A : Arithmetic α) {slots slots' : Nat → Option α}

theorem step_congr {i : Instr} (h : ∀ l, i.load? = some l → slots l.1 = slots' l.1)
    (stack : List α) : A.step slots i stack = A.step slots' i stack := by
  cases i with
  | push v => rfl
  | load slot name =>
    have hslot : slots slot = slots' slot := h (slot, name) rfl
    simp only [step, hslot]
  | apply o => rfl

/-- **Slots that are not loaded make no difference.** -/
theorem exec_congr {p : Program} (h : ∀ l ∈ p.loads, slots l.1 = slots' l.1) (stack : List α) :
    A.exec slots p stack = A.exec slots' p stack := by
  induction p generalizing stack with
  | nil => rfl
  | cons i p ih =>
    have hi : ∀ l, i.load? = some l → slots l.1 = slots' l.1 := by
      intro l hl
      exact h l (List.mem_filterMap.mpr ⟨i, List.mem_cons_self, hl⟩)
    have hp : ∀ l ∈ Program.loads p, slots l.1 = slots' l.1 := by
      intro l hl
      obtain ⟨j, hj, hjl⟩ := List.mem_filterMap.mp hl
      exact h l (List.mem_filterMap.mpr ⟨j, List.mem_cons_of_mem i hj, hjl⟩)
    rw [exec, exec, A.step_congr hi]
    cases A.step slots' i stack with
    | ok stack => exact ih hp stack
    | error e => rfl

theorem run_congr {p : Program} (h : ∀ l ∈ p.loads, slots l.1 = slots' l.1) (stack : List α) :
    A.run slots p stack = A.run slots' p stack := by
  rw [run, run, A.exec_congr h]

theorem eval_congr {p : Program} (h : ∀ l ∈ p.loads, slots l.1 = slots' l.1) :
    A.eval slots p = A.eval slots' p := by
  rw [eval, eval, A.run_congr h]

end

/-! ## Another arithmetic -/

section

variable {A B : Arithmetic α} {slots : Nat → Option α}

/-- Something holds at each instruction of a run, for the instruction and the stack it finds. -/
def Along (A : Arithmetic α) (slots : Nat → Option α) (P : Instr → List α → Prop) :
    Program → List α → Prop
  | [], _ => True
  | i :: p, stack =>
    P i stack ∧
      match A.step slots i stack with
      | .ok stack => A.Along slots P p stack
      | .error _ => True

instance decidableAlong (A : Arithmetic α) (slots : Nat → Option α) (P : Instr → List α → Prop)
    [∀ i stack, Decidable (P i stack)] :
    (p : Program) → (stack : List α) → Decidable (A.Along slots P p stack)
  | [], _ => .isTrue trivial
  | i :: p, stack =>
    have : Decidable (match A.step slots i stack with
        | .ok stack => A.Along slots P p stack
        | .error _ => True) :=
      match A.step slots i stack with
      | .ok stack => decidableAlong A slots P p stack
      | .error _ => .isTrue trivial
    inferInstanceAs (Decidable (P i stack ∧ _))

/-- An arithmetic that does the same with what an instruction finds takes the same step. -/
theorem step_eq_step {i : Instr} {stack : List α} (hconstant : A.constant = B.constant)
    (hunary : ∀ u x rest, i = .apply (.unary u) → stack = x :: rest → A.unary u x = B.unary u x)
    (hbinary : ∀ b x y rest, i = .apply (.binary b) → stack = y :: x :: rest →
      A.binary b x y = B.binary b x y) :
    A.step slots i stack = B.step slots i stack := by
  cases i with
  | push v => simp only [step, hconstant]
  | load slot name => rfl
  | apply o =>
    cases o with
    | unary u =>
      cases stack with
      | nil => rfl
      | cons x rest => simp only [step, apply, hunary u x rest rfl rfl]
    | binary b =>
      rcases stack with _ | ⟨y, _ | ⟨x, rest⟩⟩
      · rfl
      · rfl
      · simp only [step, apply, hbinary b x y rest rfl rfl]

/-- **Equal steps make equal runs.** -/
theorem exec_eq_exec {P : Instr → List α → Prop}
    (hstep : ∀ i stack, P i stack → A.step slots i stack = B.step slots i stack) {p : Program}
    {stack : List α} (h : B.Along slots P p stack) :
    A.exec slots p stack = B.exec slots p stack := by
  induction p generalizing stack with
  | nil => rfl
  | cons i p ih =>
    rw [Along] at h
    obtain ⟨hi, hrest⟩ := h
    rw [exec, exec, hstep i stack hi]
    cases hok : B.step slots i stack with
    | ok stack' =>
      rw [hok] at hrest
      exact ih hrest
    | error e => rfl

end

end Formula.Arithmetic
