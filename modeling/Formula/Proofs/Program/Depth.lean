import Formula.Program.Run

/-!
# The depth of the stack

How deep the stack is at each instruction can be counted without running the program: an instruction
takes as many values as its operator has operands, and puts one value in their place. This count
decides whether a run has a value (`run_eq_ok_iff`). No instruction looks below the values that it
takes, so what lies below the lowest depth on the way is neither read nor changed
(`exec_of_depth?`).

A run fails at the first instruction that finds too little. What the instructions before it have
done stays done (`exists_of_exec_eq_error`).
-/

namespace Formula

/-- How many values an instruction takes from the stack. Each instruction puts one there. -/
def Instr.pops : Instr → Nat
  | .push _ | .load _ _ => 0
  | .apply o => o.arity

/-! ## Counting -/

namespace Program

/-- How many values all instructions take together. -/
def pops : Program → Nat
  | [] => 0
  | i :: p => i.pops + pops p

/-- The depth behind a program that begins on `n` values, if each instruction finds enough. -/
def depth? (n : Nat) : Program → Option Nat
  | [] => some n
  | i :: p => if i.pops ≤ n then depth? (n - i.pops + 1) p else none

/-- The lowest depth of a run that begins on `n` values. At the end one value is taken. -/
def lowest (n : Nat) : Program → Nat
  | [] => n - 1
  | i :: p => min (n - i.pops) (lowest (n - i.pops + 1) p)

variable {p : Program} {i : Instr} {n d : Nat}

theorem depth?_cons_eq_some_iff :
    depth? n (i :: p) = some d ↔ i.pops ≤ n ∧ depth? (n - i.pops + 1) p = some d := by
  rw [depth?]
  split
  · next h => simp [h]
  · next h => simp [h]

theorem depth?_append (n : Nat) (p q : Program) :
    depth? n (p ++ q) = (depth? n p).bind (depth? · q) := by
  induction p generalizing n with
  | nil => rfl
  | cons i p ih =>
    rw [List.cons_append, depth?, depth?]
    split
    · exact ih _
    · rfl

/-- What is put on the stack and not taken is left. -/
theorem depth?_add_pops (h : depth? n p = some d) : d + pops p = n + p.length := by
  induction p generalizing n with
  | nil =>
    cases h
    rfl
  | cons i p ih =>
    obtain ⟨hpops, h⟩ := depth?_cons_eq_some_iff.mp h
    have hrest := ih h
    rw [pops, List.length_cons]
    omega

/-- **Values below the lowest depth need not be there.** -/
theorem depth?_sub {m : Nat} (hm : m ≤ lowest n p) (h : depth? n p = some d) :
    depth? (n - m) p = some (d - m) := by
  induction p generalizing n with
  | nil =>
    cases h
    rfl
  | cons i p ih =>
    obtain ⟨hpops, h⟩ := depth?_cons_eq_some_iff.mp h
    obtain ⟨hhere, hrest⟩ := Nat.le_min.mp hm
    refine depth?_cons_eq_some_iff.mpr ⟨by omega, ?_⟩
    have hdepth : n - m - i.pops + 1 = n - i.pops + 1 - m := by omega
    rw [hdepth]
    exact ih hrest h

theorem lowest_le (n : Nat) (p : Program) : lowest n p ≤ n := by
  cases p with
  | nil => exact Nat.sub_le n 1
  | cons i p => exact Nat.le_trans (Nat.min_le_left _ _) (Nat.sub_le n i.pops)

/-- The value at the end lies above the lowest depth. -/
theorem lowest_lt (h : depth? n p = some (d + 1)) : lowest n p ≤ d := by
  induction p generalizing n with
  | nil =>
    cases h
    exact Nat.le_refl d
  | cons i p ih =>
    obtain ⟨-, h⟩ := depth?_cons_eq_some_iff.mp h
    exact Nat.le_trans (Nat.min_le_right _ _) (ih h)

end Program

/-! ## One instruction -/

/-- An instruction cannot be carried out on a stack; with the error, and the stack that is left. A
binary operator that finds a single value has taken it. -/
inductive Instr.Fails {α : Type} (slots : Nat → Option α) :
    Instr → List α → RunError → List α → Prop
  | slot {slot name stack} : slots slot = none →
    Fails slots (.load slot name) stack (.noSlot slot) stack
  | operand {u} : Fails slots (.apply (.unary u)) [] .emptyStack []
  | operands {b} : Fails slots (.apply (.binary b)) [] .emptyStack []
  | secondOperand {b x} : Fails slots (.apply (.binary b)) [x] .emptyStack []

namespace Arithmetic

variable {α : Type} {A : Arithmetic α} {slots : Nat → Option α}

/-- Each operator has a value on all values. -/
def Total (A : Arithmetic α) : Prop := ∀ b x y, ∃ z, A.binary b x y = .ok z

/-- An instruction that finds enough puts one value in the place of what it takes. -/
theorem step_of_pops_le (hA : A.Total) {i : Instr} {top : List α} (hpops : i.pops ≤ top.length)
    (hslot : ∀ slot name, i = .load slot name → ∃ v, slots slot = some v) :
    ∃ x, ∀ bottom, A.step slots i (top ++ bottom) = .ok (x :: top.drop i.pops ++ bottom) := by
  cases i with
  | push v => exact ⟨A.constant v, fun _ => rfl⟩
  | load slot name =>
    obtain ⟨v, hv⟩ := hslot slot name rfl
    refine ⟨v, fun bottom => ?_⟩
    simp only [step, hv]
    rfl
  | apply o =>
    cases o with
    | unary u =>
      obtain ⟨x, top, rfl⟩ := List.exists_cons_of_length_pos hpops
      exact ⟨A.unary u x, fun _ => rfl⟩
    | binary b =>
      obtain ⟨y, x, top, rfl⟩ : ∃ y x rest, top = y :: x :: rest := by
        rcases top with _ | ⟨y, _ | ⟨x, rest⟩⟩
        · exact absurd hpops (by decide : ¬2 ≤ 0)
        · exact absurd hpops (by decide : ¬2 ≤ 1)
        · exact ⟨y, x, rest, rfl⟩
      obtain ⟨z, hz⟩ := hA b x y
      refine ⟨z, fun bottom => ?_⟩
      simp only [step, apply, List.cons_append, hz]
      rfl

theorem pops_le_of_step {i : Instr} {stack stack' : List α}
    (h : A.step slots i stack = .ok stack') :
    (i.pops ≤ stack.length ∧ stack'.length = stack.length - i.pops + 1) ∧
      ∀ slot name, i = .load slot name → ∃ v, slots slot = some v := by
  cases i with
  | push v =>
    cases h
    exact ⟨⟨Nat.zero_le _, rfl⟩, nofun⟩
  | load slot name =>
    rw [step] at h
    split at h
    · next v hv =>
      cases h
      refine ⟨⟨Nat.zero_le _, rfl⟩, ?_⟩
      rintro _ _ ⟨⟩
      exact ⟨v, hv⟩
    · cases h
  | apply o =>
    refine ⟨?_, nofun⟩
    rw [step] at h
    unfold apply at h
    split at h
    · cases h
      exact ⟨Nat.succ_le_succ (Nat.zero_le _), rfl⟩
    · split at h
      · cases h
        exact ⟨Nat.succ_le_succ (Nat.succ_le_succ (Nat.zero_le _)), rfl⟩
      · cases h
    · cases h

theorem fails_of_step (hA : A.Total) {i : Instr} {stack left : List α} {e : RunError}
    (h : A.step slots i stack = .error (e, left)) : i.Fails slots stack e left := by
  cases i with
  | push v => cases h
  | load slot name =>
    rw [step] at h
    split at h
    · cases h
    · next hnone =>
      cases h
      exact .slot hnone
  | apply o =>
    cases o with
    | unary u =>
      cases stack with
      | nil =>
        cases h
        exact .operand
      | cons x stack => cases h
    | binary b =>
      rcases stack with _ | ⟨y, _ | ⟨x, stack⟩⟩
      · cases h
        exact .operands
      · cases h
        exact .secondOperand
      · obtain ⟨z, hz⟩ := hA b x y
        simp only [step, apply, hz] at h
        cases h

/-! ## Programs -/

/-- **A program that finds enough on the top of a stack runs there, whatever lies below.** -/
theorem exec_of_depth? (hA : A.Total) {p : Program} {top : List α} {d : Nat}
    (hdepth : p.depth? top.length = some d)
    (hslots : ∀ slot name, .load slot name ∈ p → ∃ v, slots slot = some v) :
    ∃ rest : List α, rest.length = d ∧
      ∀ bottom, A.exec slots p (top ++ bottom) = .ok (rest ++ bottom) := by
  induction p generalizing top with
  | nil =>
    cases hdepth
    exact ⟨top, rfl, fun _ => rfl⟩
  | cons i p ih =>
    obtain ⟨hpops, hdepth⟩ := Program.depth?_cons_eq_some_iff.mp hdepth
    obtain ⟨x, hstep⟩ := step_of_pops_le hA hpops fun slot name hi =>
      hslots slot name (hi ▸ List.mem_cons_self)
    have hlength : (x :: top.drop i.pops).length = top.length - i.pops + 1 := by simp
    rw [← hlength] at hdepth
    obtain ⟨rest, hrest, hexec⟩ := ih hdepth fun slot name hload =>
      hslots slot name (List.mem_cons_of_mem i hload)
    refine ⟨rest, hrest, fun bottom => ?_⟩
    rw [exec, hstep]
    exact hexec bottom

/-- **A program that ran has found enough.** -/
theorem depth?_of_exec {p : Program} {stack stack' : List α}
    (h : A.exec slots p stack = .ok stack') :
    p.depth? stack.length = some stack'.length ∧
      ∀ slot name, .load slot name ∈ p → ∃ v, slots slot = some v := by
  induction p generalizing stack with
  | nil =>
    cases h
    exact ⟨rfl, nofun⟩
  | cons i p ih =>
    rw [exec] at h
    cases hstep : A.step slots i stack with
    | error e =>
      rw [hstep] at h
      cases h
    | ok next =>
      rw [hstep] at h
      obtain ⟨⟨hpops, hlength⟩, hslot⟩ := pops_le_of_step hstep
      obtain ⟨hdepth, hslots⟩ := ih h
      rw [hlength] at hdepth
      refine ⟨Program.depth?_cons_eq_some_iff.mpr ⟨hpops, hdepth⟩, ?_⟩
      intro slot name hload
      rcases List.mem_cons.mp hload with hi | hload
      · exact hslot slot name hi.symm
      · exact hslots slot name hload

/-- **A program that failed has run up to the instruction that fails.** -/
theorem exists_of_exec_eq_error {p : Program} {stack left : List α} {e : RunError}
    (h : A.exec slots p stack = .error (e, left)) :
    ∃ (q : Program) (i : Instr) (r : Program) (found : List α), p = q ++ i :: r ∧
      A.exec slots q stack = .ok found ∧ A.step slots i found = .error (e, left) := by
  induction p generalizing stack with
  | nil => cases h
  | cons i p ih =>
    rw [exec] at h
    cases hstep : A.step slots i stack with
    | error e' =>
      rw [hstep] at h
      cases h
      exact ⟨[], i, p, stack, rfl, rfl, hstep⟩
    | ok next =>
      rw [hstep] at h
      obtain ⟨q, j, r, found, rfl, hexec, hj⟩ := ih h
      refine ⟨i :: q, j, r, found, rfl, ?_, hj⟩
      rw [exec, hstep]
      exact hexec

/-! ## Runs -/

/-- **A run has a value exactly if it finds enough and a value is left.** -/
theorem run_eq_ok_iff (hA : A.Total) (p : Program) (stack : List α) :
    (∃ v, (A.run slots p stack).result = .ok v) ↔
      (∃ d, p.depth? stack.length = some (d + 1)) ∧
        ∀ slot name, .load slot name ∈ p → ∃ v, slots slot = some v := by
  constructor
  · rintro ⟨v, hv⟩
    unfold run at hv
    split at hv
    · next x rest hexec =>
      obtain ⟨hdepth, hslots⟩ := depth?_of_exec hexec
      exact ⟨⟨rest.length, hdepth⟩, hslots⟩
    · cases hv
    · cases hv
  · rintro ⟨⟨d, hdepth⟩, hslots⟩
    obtain ⟨rest, hlength, hexec⟩ := exec_of_depth? hA hdepth hslots
    obtain ⟨x, rest, rfl⟩ := List.exists_cons_of_length_eq_add_one hlength
    have hexec := hexec []
    rw [List.append_nil] at hexec
    refine ⟨x, ?_⟩
    rw [run, hexec]
    rfl

/-- A run with a value, on any stack with the same values on its top. -/
theorem run_append (hA : A.Total) {p : Program} {top : List α} {d : Nat}
    (hdepth : p.depth? top.length = some (d + 1))
    (hslots : ∀ slot name, .load slot name ∈ p → ∃ v, slots slot = some v) :
    ∃ (v : α) (rest : List α), rest.length = d ∧
      ∀ bottom, A.run slots p (top ++ bottom) = ⟨.ok v, rest ++ bottom⟩ := by
  obtain ⟨rest, hlength, hexec⟩ := exec_of_depth? hA hdepth hslots
  obtain ⟨v, rest, rfl⟩ := List.exists_cons_of_length_eq_add_one hlength
  refine ⟨v, rest, Nat.succ.inj hlength, fun bottom => ?_⟩
  rw [run, hexec bottom]
  rfl

/-- **A run does not look below its lowest depth.** -/
theorem exists_of_run_eq_ok (hA : A.Total) {p : Program} {stack left : List α} {v : α}
    (h : A.run slots p stack = ⟨.ok v, left⟩) :
    left.length + p.pops + 1 = stack.length + p.length ∧
      ∃ top bottom rest, stack = top ++ bottom ∧ bottom.length = p.lowest stack.length ∧
        left = rest ++ bottom ∧ ∀ other, A.run slots p (top ++ other) = ⟨.ok v, rest ++ other⟩ := by
  obtain ⟨⟨d, hdepth⟩, hslots⟩ := (run_eq_ok_iff hA p stack).mp ⟨v, by rw [h]⟩
  have hcount := Program.depth?_add_pops hdepth
  have hlow := Program.lowest_le stack.length p
  have hlast := Program.lowest_lt hdepth
  obtain ⟨low, hlowest⟩ : ∃ low, p.lowest stack.length = low := ⟨_, rfl⟩
  rw [hlowest] at hlow hlast ⊢
  have hsplit : stack = stack.take (stack.length - low) ++ stack.drop (stack.length - low) :=
    (List.take_append_drop _ _).symm
  -- the values above the lowest depth are enough
  have htop := Program.depth?_sub (Nat.le_of_eq hlowest.symm) hdepth
  rw [← List.length_take_of_le (Nat.sub_le stack.length low), Nat.sub_add_comm hlast] at htop
  obtain ⟨w, rest, hrest, hruns⟩ := run_append hA htop hslots
  have hthis := hruns (stack.drop (stack.length - low))
  rw [← hsplit, h] at hthis
  obtain ⟨rfl, rfl⟩ : v = w ∧ left = rest ++ stack.drop (stack.length - low) := by
    simpa using hthis
  refine ⟨?_, _, _, rest, hsplit, ?_, rfl, hruns⟩
  · rw [List.length_append, hrest, List.length_drop]
    omega
  · rw [List.length_drop]
    omega

/-- **A run that fails has an instruction that fails, or leaves no value.** -/
theorem exists_of_run_eq_error (hA : A.Total) {p : Program} {stack left : List α} {e : RunError}
    (h : A.run slots p stack = ⟨.error e, left⟩) :
    (∃ (q : Program) (i : Instr) (r : Program) (found : List α), p = q ++ i :: r ∧
        A.exec slots q stack = .ok found ∧ i.Fails slots found e left) ∨
      A.exec slots p stack = .ok [] ∧ e = .emptyStack ∧ left = [] := by
  unfold run at h
  split at h
  · cases h
  · next hexec =>
    cases h
    exact .inr ⟨hexec, rfl, rfl⟩
  · next e' left' hexec =>
    cases h
    obtain ⟨q, i, r, found, hp, hq, hi⟩ := exists_of_exec_eq_error hexec
    exact .inl ⟨q, i, r, found, hp, hq, fails_of_step hA hi⟩

end Arithmetic

theorem Kernels.total_scalar (K : Kernels) : K.scalar.Total := fun b x y => ⟨K.binary b x y, rfl⟩

/--
**What a run does can be told from the depth of its stack.**

A run has a value exactly if each instruction finds as many values as it takes, each slot that is
loaded exists, and a value is left at the end. Then the stack has grown by what was put there and
has shrunk by what was taken, the last value included. What lies below the lowest depth is as it
was, and with anything else in its place the run has the same value.

Otherwise the error is that of the first instruction that cannot be carried out, on what the
instructions before it have left; or all have been carried out and have left nothing.
-/
theorem run_by_depth (K : Kernels) (p : Program) (values stack : List Double) :
    ((∃ v, (K.scalar.run (slotsOf values) p stack).result = .ok v) ↔
        (∃ d, p.depth? stack.length = some (d + 1)) ∧
          ∀ slot name, .load slot name ∈ p → slot < values.length) ∧
      (∀ v left, K.scalar.run (slotsOf values) p stack = ⟨.ok v, left⟩ →
        left.length + p.pops + 1 = stack.length + p.length ∧
          ∃ top bottom rest, stack = top ++ bottom ∧ bottom.length = p.lowest stack.length ∧
            left = rest ++ bottom ∧
            ∀ other, K.scalar.run (slotsOf values) p (top ++ other) = ⟨.ok v, rest ++ other⟩) ∧
      ∀ e left, K.scalar.run (slotsOf values) p stack = ⟨.error e, left⟩ →
        (∃ (q : Program) (i : Instr) (r : Program) (found : List Double), p = q ++ i :: r ∧
            K.scalar.exec (slotsOf values) q stack = .ok found ∧
            i.Fails (slotsOf values) found e left) ∨
          K.scalar.exec (slotsOf values) p stack = .ok [] ∧ e = .emptyStack ∧ left = [] := by
  have hslot : ∀ slot, (∃ v, slotsOf values slot = some v) ↔ slot < values.length := by
    intro slot
    rw [slotsOf, ← Option.isSome_iff_exists, isSome_getElem?]
  refine ⟨?_, ?_, ?_⟩
  · rw [Arithmetic.run_eq_ok_iff K.total_scalar]
    simp only [hslot]
  · exact fun v left hrun => Arithmetic.exists_of_run_eq_ok K.total_scalar hrun
  · exact fun e left hrun => Arithmetic.exists_of_run_eq_error K.total_scalar hrun

/-- A binary operator finds a single value, behind instructions that left it there. -/
example : Kernels.standard.scalar.run (slotsOf [])
    [.apply (.unary .minus), .apply (.binary .add), .push .zero] [.nan]
      = ⟨.error .emptyStack, []⟩ := rfl

end Formula
