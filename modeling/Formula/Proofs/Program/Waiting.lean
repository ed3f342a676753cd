import Mathlib.Data.List.Chain
import Formula.Proofs.Program.Depth
import Formula.Proofs.Program.Emission
import Formula.Proofs.Token.Reading

/-!
# Between two tokens

While a formula is compiled, its output is a program at any time: each instruction finds the values
that it takes. How many values are left depends on what waits. Each binary operator that waits has
its left operand in the output, and where an operator is expected, there is an operand that no
operator has yet. Emitting an operator that waits takes away as many values as operators are taken
away, whether or not constants are folded, so it makes no difference after how many of them one
looks (`Folding.depth?_foldl_emit`).

What waits is in layers, which begin at open brackets. An operator waits above another one of its
layer only if that one did not precede it. So priorities never fall from the bottom of a layer to
its top, and where they do not rise either, operators group to the right (`Layered`).

Main statement: `Compiler.run_between_tokens`.
-/

namespace Formula

/-! ## What waits -/

/-- How many operators wait that take two operands. Brackets do not count. -/
def binaryCount (pending : List Pending) : Nat :=
  pending.countP fun
    | .op o => o.isBinary
    | .bracket => false

/-- How many operands belong to no operator yet. -/
def Expected.operands : Expected → Nat
  | .operand => 0
  | .operator => 1

/-- An operator that waits may lie upon another one if that one does not precede it. A bracket may
lie upon everything, and everything upon a bracket. -/
def Pending.LiesUpon : Pending → Pending → Prop
  | .op upper, .op lower => lower.precedes upper = false
  | _, _ => True

/-- What waits, the latest first, lies upon what waited before. -/
def Layered (pending : List Pending) : Prop := pending.IsChain Pending.LiesUpon

/-- An operator counts for the operands that it has behind its first one. -/
theorem binaryCount_cons_op (o : Op) (pending : List Pending) :
    binaryCount (.op o :: pending) + 1 = binaryCount pending + o.arity := by
  cases o with
  | unary u => rfl
  | binary b => exact congrArg (· + 1) (List.countP_cons_of_pos rfl)

/-- A binary operator that comes to wait has its left operand. -/
theorem binaryCount_cons_binary (b : BinaryOp) (pending : List Pending) :
    binaryCount (.op (.binary b) :: pending) = binaryCount pending + 1 :=
  Nat.succ.inj (binaryCount_cons_op (.binary b) pending)

/-! ## Priorities in a layer -/

namespace Op

/-- Operators of one priority group to the same side. -/
theorem associativity_eq_of_priority_eq {o o' : Op} (h : o.priority = o'.priority) :
    o.associativity = o'.associativity := by
  rcases o with u | b <;> rcases o' with u' | b'
  · rfl
  · cases b' <;> cases h
  · cases b <;> cases h
  · cases b <;> cases b' <;> first | rfl | cases h

/-- **An operator that is not preceded binds at least as tightly**, and if no tighter then both
group to the right. -/
theorem priority_of_not_precedes {lower upper : Op} (h : lower.precedes upper = false) :
    lower.priority ≤ upper.priority ∧
      (lower.priority = upper.priority →
        lower.associativity = .right ∧ upper.associativity = .right) := by
  unfold precedes at h
  split at h
  · have hlt : lower.priority < upper.priority := Nat.lt_of_not_le (of_decide_eq_false h)
    exact ⟨Nat.le_of_lt hlt, fun heq => absurd heq (Nat.ne_of_lt hlt)⟩
  · next hright =>
    refine ⟨Nat.le_of_not_lt (of_decide_eq_false h), fun heq => ⟨?_, hright⟩⟩
    rw [associativity_eq_of_priority_eq heq, hright]

end Op

namespace Layered

variable {pending : List Pending}

theorem suffix {below : List Pending} (h : Layered pending) (hbelow : below <:+ pending) :
    Layered below := List.IsChain.suffix h hbelow

theorem bracket (h : Layered pending) : Layered (.bracket :: pending) :=
  List.isChain_cons.mpr ⟨fun _ _ => trivial, h⟩

/-- An operator comes to lie upon what it does not set free. -/
theorem op {o : Op} (h : Layered pending)
    (ho : ∀ w ps, pending = .op w :: ps → w.precedes o = false) :
    Layered (.op o :: pending) := by
  refine List.isChain_cons.mpr ⟨fun p hp => ?_, h⟩
  cases pending with
  | nil => cases hp
  | cons q ps =>
    obtain rfl : q = p := Option.some.inj hp
    cases q with
    | bracket => trivial
    | op w => exact ho w ps rfl

/-- Operators with no bracket between them lie one upon the other. -/
theorem isChain_stretch {above below : List Pending} {stretch : List Op}
    (h : Layered (above ++ stretch.map .op ++ below)) :
    stretch.IsChain fun upper lower => lower.precedes upper = false :=
  (List.isChain_map Pending.op).mp h.left_of_append.right_of_append

/-- **Priorities in a stretch without brackets**, from its top downwards. -/
theorem priorities {above below : List Pending} {stretch : List Op}
    (h : Layered (above ++ stretch.map .op ++ below)) :
    (stretch.map Op.priority).Pairwise (· ≥ ·) ∧
      stretch.IsChain fun upper lower => lower.priority = upper.priority →
        lower.associativity = .right ∧ upper.associativity = .right := by
  have hchain := h.isChain_stretch
  refine ⟨List.IsChain.pairwise ((List.isChain_map Op.priority).mpr ?_), ?_⟩
  · exact hchain.imp fun _ _ hne => (Op.priority_of_not_precedes hne).1
  · exact hchain.imp fun _ _ hne => (Op.priority_of_not_precedes hne).2

end Layered

/-! ## What a token sets free -/

namespace Yard

theorem splitPreceding_append_eq (o : Op) (pending : List Pending) :
    (splitPreceding o pending).1.map .op ++ (splitPreceding o pending).2 = pending := by
  induction pending with
  | nil => rfl
  | cons p pending ih =>
    cases p with
    | bracket => rfl
    | op w =>
      rw [splitPreceding]
      split
      · exact congrArg (Pending.op w :: ·) ih
      · rfl

/-- What is left on top does not precede the operator. -/
theorem precedes_of_splitPreceding {o w : Op} {pending ps : List Pending}
    (h : (splitPreceding o pending).2 = .op w :: ps) : w.precedes o = false := by
  induction pending with
  | nil => cases h
  | cons p pending ih =>
    cases p with
    | bracket => cases h
    | op v =>
      rw [splitPreceding] at h
      split at h
      · exact ih h
      · next hv =>
        cases h
        exact Bool.eq_false_iff.mpr hv

theorem eq_of_splitBracket {pending : List Pending} {s : List Op × List Pending}
    (h : splitBracket pending = some s) : pending = s.1.map .op ++ .bracket :: s.2 := by
  induction pending generalizing s with
  | nil => cases h
  | cons p pending ih =>
    cases p with
    | bracket =>
      cases h
      rfl
    | op o =>
      obtain ⟨s', hs', rfl⟩ := Option.map_eq_some_iff.mp h
      exact congrArg (Pending.op o :: ·) (ih hs')

end Yard

/-! ## Emitting -/

namespace Program

variable {i : Instr} {p : Program} {n d : Nat}

theorem depth?_concat (h : depth? n p = some d) (hpops : i.pops ≤ d) :
    depth? n (p ++ [i]) = some (d - i.pops + 1) := by
  rw [depth?_append, h]
  exact depth?_cons_eq_some_iff.mpr ⟨hpops, rfl⟩

theorem exists_of_depth?_concat (h : depth? n (p ++ [i]) = some d) :
    ∃ m, depth? n p = some m ∧ i.pops ≤ m ∧ m - i.pops + 1 = d := by
  rw [depth?_append] at h
  obtain ⟨m, hm, h⟩ := Option.bind_eq_some_iff.mp h
  obtain ⟨hpops, h⟩ := depth?_cons_eq_some_iff.mp h
  exact ⟨m, hm, hpops, Option.some.inj h⟩

end Program

namespace Folding

variable (F : Folding) {output : List Instr} {o : Op} {d : Nat}

/-- **An operator that is emitted finds its operands and leaves one value**, folded or not. -/
theorem depth?_emit (h : Program.depth? 0 output.reverse = some d) (ho : o.arity ≤ d) :
    Program.depth? 0 (F.emit o output).reverse = some (d - o.arity + 1) := by
  have happly : Program.depth? 0 (Instr.apply o :: output).reverse
      = some (d - o.arity + 1) := by
    rw [List.reverse_cons]
    exact Program.depth?_concat h ho
  unfold emit
  split
  · -- a positive sign leaves the value that it finds
    have hd : d - 1 + 1 = d := Nat.sub_add_cancel ho
    rw [h, show (Op.unary .plus).arity = 1 from rfl, hd]
  · split
    · rw [List.reverse_cons] at h ⊢
      obtain ⟨m, hm, -, rfl⟩ := Program.exists_of_depth?_concat h
      exact Program.depth?_concat hm (Nat.zero_le m)
    · exact happly
  · split
    · -- two constants give way to one
      rw [List.reverse_cons] at h
      obtain ⟨m, hm, -, rfl⟩ := Program.exists_of_depth?_concat h
      rw [List.reverse_cons] at hm ⊢
      obtain ⟨k, hk, -, rfl⟩ := Program.exists_of_depth?_concat hm
      exact Program.depth?_concat hk (Nat.zero_le k)
    · exact happly

/-- **After any number of operators that are emitted, one value more is left than binary operators
wait.** -/
theorem depth?_foldl_emit (os : List Op) {below : List Pending}
    (h : Program.depth? 0 output.reverse = some (binaryCount (os.map .op ++ below) + 1)) :
    Program.depth? 0 (os.foldl (fun out o => F.emit o out) output).reverse
      = some (binaryCount below + 1) := by
  induction os generalizing output with
  | nil => exact h
  | cons o os ih =>
    have hcount := binaryCount_cons_op o (os.map .op ++ below)
    rw [List.map_cons, List.cons_append, hcount] at h
    have hemit := F.depth?_emit h (Nat.le_add_left _ _)
    rw [Nat.add_sub_cancel] at hemit
    exact ih hemit

/-- Emitting an operator brings in no load. -/
theorem load_mem_of_mem_emit {slot : Nat} {name : String}
    (h : .load slot name ∈ F.emit o output) : .load slot name ∈ output := by
  unfold emit at h
  split at h
  · exact h
  · split at h
    · exact List.mem_cons_of_mem _ ((List.mem_cons.mp h).resolve_left nofun)
    · exact (List.mem_cons.mp h).resolve_left nofun
  · split at h
    · exact List.mem_cons_of_mem _ (List.mem_cons_of_mem _
        ((List.mem_cons.mp h).resolve_left nofun))
    · exact (List.mem_cons.mp h).resolve_left nofun

theorem load_mem_of_mem_foldl_emit (os : List Op) {slot : Nat} {name : String}
    (h : .load slot name ∈ os.foldl (fun out o => F.emit o out) output) :
    .load slot name ∈ output := by
  induction os generalizing output with
  | nil => exact h
  | cons o os ih => exact F.load_mem_of_mem_emit (ih h)

end Folding

/-! ## Taking tokens -/

namespace Compiler

/-- What holds between two tokens: how deep the output leaves the stack, how operators wait, and
that what is loaded is in the table. -/
structure Sound (c : Compiler) (e : Expected) : Prop where
  depth : Program.depth? 0 c.output.reverse = some (binaryCount c.pending + e.operands)
  layered : Layered c.pending
  loads : ∀ slot name, .load slot name ∈ c.output → slot < c.table.size

variable {F : Folding} {c c' : Compiler} {e : Expected}

theorem sound_start (table : Table) : (start table).Sound .operand where
  depth := rfl
  layered := List.isChain_nil
  loads _ _ h := by cases h

namespace Sound

/-- An operand is one value more, and an operator is expected behind it. -/
theorem operand {i : Instr} {table : Table} (h : c.Sound .operand) (hi : i.pops = 0)
    (hload : ∀ slot name, i = .load slot name → slot < table.size)
    (hsize : c.table.size ≤ table.size) :
    Sound ⟨c.pending, i :: c.output, table⟩ .operator where
  depth := by
    have hdepth := Program.depth?_concat h.depth (hi ▸ Nat.zero_le _)
    rw [hi] at hdepth
    rw [List.reverse_cons]
    exact hdepth
  layered := h.layered
  loads slot name hmem := by
    rcases List.mem_cons.mp hmem with hfirst | hmem
    · exact hload slot name hfirst.symm
    · exact Nat.lt_of_lt_of_le (h.loads slot name hmem) hsize

/-- Operators on the top of what waits may be emitted, as many as one likes. -/
theorem emitted (h : c.Sound .operator) {os : List Op} {below : List Pending}
    (hpending : c.pending = os.map .op ++ below) :
    Sound ⟨below, os.foldl (fun out o => F.emit o out) c.output, c.table⟩ .operator where
  depth := F.depth?_foldl_emit os (hpending ▸ h.depth)
  layered := h.layered.suffix ⟨os.map .op, hpending.symm⟩
  loads slot name hmem := h.loads slot name (F.load_mem_of_mem_foldl_emit os hmem)

/-- **One token.** -/
theorem step (h : c.Sound e) {t : Located} (hfits : t.token.fits e)
    (hstep : c.step F t = .ok c') : c'.Sound (e.after t.token) := by
  obtain ⟨token, place⟩ := t
  cases token with
  | number v =>
    cases e <;> cases hfits
    cases hstep
    exact h.operand rfl nofun (Nat.le_refl _)
  | name word =>
    cases e <;> cases hfits
    simp only [Compiler.step, Table.slotFor_eq] at hstep
    cases hstep
    have hslot := Table.idxOf_lt_size (c.table.mem_names_register word)
    rw [c.table.idxOf_names_register] at hslot
    refine h.operand rfl ?_ ?_
    · rintro _ _ ⟨⟩
      exact hslot
    · rw [Table.size_eq_length_names, Table.size_eq_length_names, Table.names_register]
      split
      · exact Nat.le_refl _
      · rw [List.length_append]
        exact Nat.le_add_right _ _
  | openBracket =>
    cases e <;> cases hfits
    cases hstep
    exact ⟨h.depth, h.layered.bracket, h.loads⟩
  | closeBracket =>
    cases e <;> cases hfits
    simp only [Compiler.step, F.closeBracket_eq] at hstep
    cases hs : Yard.splitBracket c.pending with
    | none =>
      rw [hs] at hstep
      cases hstep
    | some s =>
      rw [hs] at hstep
      cases hstep
      have hinside := h.emitted (F := F) (Yard.eq_of_splitBracket hs)
      exact ⟨hinside.depth, hinside.layered.suffix (List.suffix_cons _ _), hinside.loads⟩
  | op o =>
    simp only [Compiler.step, F.emitPreceding_eq] at hstep
    cases hstep
    cases o with
    | unary u =>
      rw [Yard.splitPreceding_unary]
      exact ⟨h.depth, h.layered.op fun w _ _ => w.precedes_unary u, h.loads⟩
    | binary b =>
      cases e <;> cases hfits
      have hleft := h.emitted (F := F) (Yard.splitPreceding_append_eq (.binary b) c.pending).symm
      refine ⟨?_, hleft.layered.op fun w ps => Yard.precedes_of_splitPreceding, hleft.loads⟩
      -- the operand on the left now belongs to the operator
      rw [binaryCount_cons_binary]
      exact hleft.depth

/-- **All tokens.** -/
theorem run (h : c.Sound e) {ls : List Located} {e' : Expected}
    (hthrough : e.through (ls.map Located.token) = some e') (hrun : c.run F ls = (c', none)) :
    c'.Sound e' := by
  induction ls generalizing c e with
  | nil =>
    cases hthrough
    cases hrun
    exact h
  | cons t ls ih =>
    rw [List.map_cons, Expected.through] at hthrough
    rw [Compiler.run] at hrun
    split at hthrough
    · next hfits =>
      cases hstep : c.step F t with
      | ok d =>
        rw [hstep] at hrun
        exact ih (h.step hfits hstep) hthrough hrun
      | error error =>
        rw [hstep] at hrun
        cases hrun
    · cases hthrough

/-- A run of the output on an empty stack leaves that many values. -/
theorem exists_exec (h : c.Sound e) (K : Kernels) {values : List Double}
    (hvalues : c.table.size ≤ values.length) :
    ∃ stack, K.scalar.exec (slotsOf values) c.output.reverse [] = .ok stack ∧
      stack.length = binaryCount c.pending + e.operands := by
  have hslots : ∀ slot name, .load slot name ∈ c.output.reverse →
      ∃ v, slotsOf values slot = some v := by
    intro slot name hmem
    have hlt := h.loads slot name (List.mem_reverse.mp hmem)
    exact ⟨_, List.getElem?_eq_getElem (Nat.lt_of_lt_of_le hlt hvalues)⟩
  have hdepth : Program.depth? ([] : List Double).length c.output.reverse
      = some (binaryCount c.pending + e.operands) := h.depth
  obtain ⟨stack, hlength, hexec⟩ := Arithmetic.exec_of_depth? K.total_scalar hdepth hslots
  exact ⟨stack, by simpa using hexec [], hlength⟩

end Sound

/--
**What waits tells how deep the output leaves the stack, and it waits in layers.**

Between any two tokens the output runs on an empty stack without missing a value. It leaves one
value for each binary operator that waits, and one more if an operator is expected. That also holds
while operators that wait are emitted, one after the other.

In a stretch of operators with no bracket between them priorities never fall from the bottom to the
top, and where neighbours have the same priority both group to the right.
-/
theorem run_between_tokens (F : Folding) (text : String) (table : Table)
    {before behind : List Located} {c : Compiler}
    (htokens : (Tokens.ofText text).list = before ++ behind)
    (hrun : (start table).run F before = (c, none)) :
    ∃ e, Expected.operand.through (before.map Located.token) = some e ∧
      Program.depth? 0 c.output.reverse = some (binaryCount c.pending + e.operands) ∧
      (∀ (K : Kernels) (values : List Double), c.table.size ≤ values.length →
        ∃ stack, K.scalar.exec (slotsOf values) c.output.reverse [] = .ok stack ∧
          stack.length = binaryCount c.pending + e.operands) ∧
      (e = .operator → ∀ (os : List Op) (below : List Pending), c.pending = os.map .op ++ below →
        Program.depth? 0 (os.foldl (fun out o => F.emit o out) c.output).reverse
          = some (binaryCount below + 1)) ∧
      ∀ (above below : List Pending) (stretch : List Op),
        c.pending = above ++ stretch.map .op ++ below →
        (stretch.map Op.priority).Pairwise (· ≥ ·) ∧
          stretch.IsChain fun upper lower => lower.priority = upper.priority →
            lower.associativity = .right ∧ upper.associativity = .right := by
  obtain ⟨e, cursor, hreads, -⟩ := Reads.exists_of_list htokens
  have hsound : c.Sound e := (sound_start table).run hreads.through hrun
  refine ⟨e, hreads.through, hsound.depth, fun K values => hsound.exists_exec K, ?_, ?_⟩
  · rintro rfl os below hpending
    exact (hsound.emitted hpending).depth
  · intro above below stretch hpending
    have hlayered := hsound.layered
    rw [hpending] at hlayered
    exact hlayered.priorities

/-- Two powers wait above a subtraction, in a bracket behind a quotient that was folded. -/
theorem run_between_tokens_powers :
    ∃ c, (Tokens.ofText "6/3*(x - 3^y^").list = (Tokens.ofText "6/3*(x - 3^y^").list ++ [] ∧
      (start .withConstants).run ⟨.standard, true⟩ (Tokens.ofText "6/3*(x - 3^y^").list
        = (c, none) ∧
      c.pending = [] ++ [Op.binary .power, .binary .power, .binary .subtract].map .op
        ++ [.bracket, .op (.binary .multiply)] ∧
      Program.depth? 0 c.output.reverse = some 4 ∧
      ([Op.binary .power, .binary .power, .binary .subtract].map Op.priority).Pairwise
        (· ≥ ·) := by
  have hend : ((start .withConstants).run ⟨.standard, true⟩
      (Tokens.ofText "6/3*(x - 3^y^").list).2 = none := by
    decide +kernel
  have hpending : ((start .withConstants).run ⟨.standard, true⟩
        (Tokens.ofText "6/3*(x - 3^y^").list).1.pending
      = [] ++ [Op.binary .power, .binary .power, .binary .subtract].map .op
        ++ [.bracket, .op (.binary .multiply)] := by
    decide +kernel
  have htokens := (List.append_nil (Tokens.ofText "6/3*(x - 3^y^").list).symm
  have hrun : (start .withConstants).run ⟨.standard, true⟩ (Tokens.ofText "6/3*(x - 3^y^").list
      = (_, none) := Prod.ext rfl hend
  obtain ⟨e, he, hdepth, -, -, hlayers⟩ :=
    run_between_tokens ⟨.standard, true⟩ "6/3*(x - 3^y^" .withConstants htokens hrun
  obtain rfl : e = .operand := by
    have hthrough : Expected.operand.through
        ((Tokens.ofText "6/3*(x - 3^y^").list.map Located.token) = some .operand := by
      decide +kernel
    exact Option.some.inj (he.symm.trans hthrough)
  rw [hpending] at hdepth
  exact ⟨_, htokens, hrun, hpending, hdepth, (hlayers _ _ _ hpending).1⟩

end Compiler

end Formula
