import Formula.Proofs.Closure.Agreement
import Formula.Proofs.Closure.Derivative
import Formula.Proofs.Expression.Variables
import Formula.Proofs.Program.Rational

/-!
# Gradients of formulas

The record of a formula is its tree with the value at each node (`evalIn_recording`). By the rules
of differentiation the slope of the record by an argument is the formal derivative of the tree by
the name of the argument (`derivative_recorded`): each occurrence of the name counts.

An argument that is not the last one of its name occurs nowhere in the record, because its slot gets
another one. A name underneath factorials does not reach beyond them. In both cases the slope is
zero (`not_reaches_recorded`).

So a gradient is the derivative of the formula (`gradient_ofExpression`). What counts is the tree
that was compiled. A constant that was folded is the double that was computed for it, and if that
was rounded, the derivative is not the one of the formula as it is written
(`gradient_of_rounded_constant`).
-/

namespace Formula

namespace Tree

/-! ## Records of trees -/

section

variable {α : Type} (C : Calculus α) (leaf : String → Recorded α)

/-- The record of a tree: what it is made of, with the value of each part. -/
def recorded : Tree → Recorded α
  | .number v => .constant C v
  | .name word => leaf word
  | .unary u t => C.recording.unary u t.recorded
  | .binary b l r => .binary b l.recorded r.recorded (C.binary b l.recorded.value r.recorded.value)

/-- **Recording a run yields the record of the tree.** -/
theorem evalIn_recording {value : String → Except RunError (Recorded α)} (t : Tree)
    (h : ∀ word ∈ t.names, value word = .ok (leaf word)) :
    t.evalIn C.recording value = .ok (t.recorded C leaf) := by
  induction t with
  | number v => rfl
  | name word => exact h word List.mem_cons_self
  | unary u t ih =>
    cases u with
    | plus => exact ih h
    | minus | factorial | call f =>
      rw [evalIn_unary _ _ (by simp), ih h]
      rfl
  | binary b l r ihl ihr =>
    rw [evalIn, ihl fun word hw => h word (List.mem_append_left _ hw),
      ihr fun word hw => h word (List.mem_append_right _ hw)]
    rfl

end

/-! ## Behind factorials -/

/-- The names that occur elsewhere than underneath a factorial. -/
def exposed : Tree → List String
  | .number _ | .unary .factorial _ => []
  | .name word => [word]
  | .unary .plus t | .unary .minus t | .unary (.call _) t => t.exposed
  | .binary _ l r => l.exposed ++ r.exposed

theorem mem_names_of_mem_exposed {t : Tree} {word : String} (h : word ∈ t.exposed) :
    word ∈ t.names := by
  induction t with
  | number v => cases h
  | name name => exact h
  | unary u t ih =>
    cases u with
    | factorial => cases h
    | plus | minus | call f => exact ih h
  | binary b l r ihl ihr =>
    rw [exposed, List.mem_append] at h
    exact List.mem_append.mpr (h.imp ihl ihr)

/-- **An argument reaches a record only through names that are exposed.** -/
theorem not_reaches_recorded {α : Type} (C : Calculus α) {leaf : String → Recorded α} {i : Nat}
    {t : Tree} (h : ∀ word ∈ t.exposed, ¬(leaf word).Reaches i) :
    ¬(t.recorded C leaf).Reaches i := by
  induction t with
  | number v => exact nofun
  | name word => exact h word List.mem_cons_self
  | unary u t ih =>
    cases u with
    | factorial => exact Recorded.not_reaches_factorial C _
    | plus | minus | call f => exact ih h
  | binary b l r ihl ihr =>
    refine not_or.mpr ⟨ihl fun word hw => ?_, ihr fun word hw => ?_⟩
    · exact h word (List.mem_append_left _ hw)
    · exact h word (List.mem_append_right _ hw)

/-- Folding brings no name out from under a factorial. -/
theorem mem_exposed_of_tree (F : Folding) {t : Tree} {word : String}
    (h : word ∈ (F.tree t).exposed) : word ∈ t.exposed := by
  induction t with
  | number v => exact h
  | name name => exact h
  | unary u t ih =>
    rw [Folding.tree] at h
    rcases F.unary_cases u (F.tree t) with ⟨rfl, hplus⟩ | ⟨-, hunary | ⟨-, x, -, hfolded⟩⟩
    · rw [hplus] at h
      exact ih h
    · rw [hunary] at h
      cases u with
      | factorial => cases h
      | plus | minus | call f => exact ih h
    · rw [hfolded] at h
      cases h
  | binary b l r ihl ihr =>
    rw [Folding.tree] at h
    rcases F.binary_cases b (F.tree l) (F.tree r) with hbinary | ⟨-, x, y, -, -, hfolded⟩
    · rw [hbinary, exposed, List.mem_append] at h
      exact List.mem_append.mpr (h.imp ihl ihr)
    · rw [hfolded] at h
      cases h

/-! ## In exact arithmetic -/

variable {C : Calculus ℚ} {D : Nat → Recorded ℚ → ℚ} {leaf : String → Recorded ℚ}
  {ρ : String → ℚ} {i : Nat} {name : String}

theorem value_recorded (hC : C.Exact) (hvalue : ∀ word, (leaf word).value = ρ word) {t : Tree}
    (ht : t.Rational) : (t.recorded C leaf).value = t.exactValue C.constant ρ := by
  induction t with
  | number v => rfl
  | name word => exact hvalue word
  | unary u t ih =>
    cases u with
    | plus => exact ih ht
    | minus => exact (hC.neg _).trans (congrArg Neg.neg (ih ht))
    | factorial | call f => exact ht.elim
  | binary b l r ihl ihr =>
    cases b with
    | add => rw [exactValue, ← ihl ht.1, ← ihr ht.2]; exact hC.add _ _
    | subtract => rw [exactValue, ← ihl ht.1, ← ihr ht.2]; exact hC.subtract _ _
    | multiply => rw [exactValue, ← ihl ht.1, ← ihr ht.2]; exact hC.multiply _ _
    | divide => rw [exactValue, ← ihl ht.1, ← ihr ht.2]; exact hC.divide _ _
    | power => exact ht.elim

/-- **The slope of the record is the formal derivative**, if exactly one name is recorded as the
argument. -/
theorem derivative_recorded (hC : C.Exact) (hD : C.Differentiates D)
    (hvalue : ∀ word, (leaf word).value = ρ word) {t : Tree} (ht : t.Rational)
    (hdefined : t.DefinedAt C.constant ρ) {v : ℚ} (hname : leaf name = .leaf (.argument i) v)
    (hothers : ∀ word, word ≠ name → ¬(leaf word).Reaches i) :
    D i (t.recorded C leaf) = t.exactSlope C.constant ρ name := by
  induction t with
  | number v => exact (hD.unreached (Recorded.not_reaches_constant C v)).trans hC.zero
  | name word =>
    rw [recorded, exactSlope]
    by_cases h : word = name
    · rw [if_pos h, h, hname, hD.argument]
    · rw [if_neg h, hD.unreached (hothers word h), hC.zero]
  | unary u t ih =>
    cases u with
    | plus => exact ih ht hdefined
    | minus =>
      rw [exactSlope, ← ih ht hdefined]
      exact hD.neg i _ _
    | factorial | call f => exact ht.elim
  | binary b l r ihl ihr =>
    obtain ⟨hpower, htl, htr⟩ := ht.of_binary
    obtain ⟨hdl, hdr, hdivides⟩ := hdefined
    have hl := ihl htl hdl
    have hr := ihr htr hdr
    have hvl := value_recorded hC hvalue htl
    have hvr := value_recorded hC hvalue htr
    cases b with
    | add => rw [recorded, hD.add, hl, hr]; rfl
    | subtract => rw [recorded, hD.subtract, hl, hr]; rfl
    | multiply => rw [recorded, hD.multiply, hl, hr, hvl, hvr]; rfl
    | divide =>
      rw [recorded, hD.divide i _ _ _ (by rw [hvr]; exact hdivides rfl), hl, hr, hvl, hvr]
      rfl
    | power => exact absurd rfl hpower

end Tree

/-! ## What names stand for -/

section

variable {α : Type} {argNames : List String} {args : List α} {name word : String} {i : Nat}

theorem getElem?_arguments (args : List α) (j : Nat) :
    (Recorded.arguments args)[j]? = args[j]?.map (.leaf (.argument j)) := by
  simp [Recorded.arguments, List.getElem?_zipIdx, Function.comp_def]

/-- What a name gets is recorded by the position of one of its arguments. -/
theorem exists_position_of_argumentOf {x : Recorded α}
    (h : argumentOf argNames (Recorded.arguments args) word = some x) :
    ∃ j v, argNames[j]? = some word ∧ x = .leaf (.argument j) v := by
  have hmem := List.mem_reverse.mp (mem_of_lookup_eq_some h)
  obtain ⟨j, hj⟩ := List.mem_iff_getElem?.mp hmem
  obtain ⟨hword, hx⟩ := List.getElem?_zip_eq_some.mp hj
  rw [getElem?_arguments] at hx
  obtain ⟨v, -, rfl⟩ := Option.map_eq_some_iff.mp hx
  exact ⟨j, v, hword, rfl⟩

/-- A name gets its last argument. -/
theorem argumentOf_of_last {x : α} (hi : argNames[i]? = some name)
    (hlast : name ∉ argNames.drop (i + 1)) (hx : args[i]? = some x) :
    argumentOf argNames args name = some x := by
  have hzip : (argNames.zip args)[i]? = some (name, x) := List.getElem?_zip_eq_some.mpr ⟨hi, hx⟩
  obtain ⟨hlt, hpair⟩ := List.getElem?_eq_some_iff.mp hzip
  have hlater : ((argNames.zip args).drop (i + 1)).reverse.lookup name = none := by
    refine lookup_eq_none_of_not_mem fun hmem => hlast ?_
    rw [List.map_reverse, List.mem_reverse, List.zip_eq_zipWith, List.drop_zipWith] at hmem
    obtain ⟨e, he, rfl⟩ := List.mem_map.mp hmem
    exact (List.of_mem_zip he).1
  rw [argumentOf, ← List.take_append_drop i (argNames.zip args), List.drop_eq_getElem_cons hlt,
    hpair, List.reverse_append, List.reverse_cons, List.lookup_append, List.lookup_append, hlater]
  simp

/-- A list has a last place for each of its elements. -/
theorem exists_last (h : name ∈ argNames) :
    ∃ i, argNames[i]? = some name ∧ name ∉ argNames.drop (i + 1) := by
  induction argNames with
  | nil => cases h
  | cons first rest ih =>
    by_cases hrest : name ∈ rest
    · obtain ⟨i, hi, hlast⟩ := ih hrest
      exact ⟨i + 1, hi, hlast⟩
    · obtain rfl : name = first := (List.mem_cons.mp h).resolve_right hrest
      exact ⟨0, rfl, hrest⟩

namespace Expression

variable {e : Expression}

/-- The value of a name in a function of arguments: what it is given, or else what it was set to
when the function was formed. -/
def pointOf (C : Calculus α) (e : Expression) (argNames : List String) (args : List α)
    (word : String) : α :=
  (argumentOf argNames args word).getD (C.constant (e.table.valueOf word))

/-- What is recorded for a name. -/
def leafOf (C : Calculus α) (e : Expression) (argNames : List String) (args : List α)
    (word : String) : Recorded α :=
  (argumentOf argNames (Recorded.arguments args) word).getD (.constant C (e.table.valueOf word))

theorem value_leafOf (C : Calculus α) (e : Expression) (argNames : List String) (args : List α)
    (word : String) : (e.leafOf C argNames args word).value = e.pointOf C argNames args word := by
  have hargs : (Recorded.arguments args).map Recorded.value = args := by
    refine List.ext_getElem? fun j => ?_
    rw [List.getElem?_map, getElem?_arguments, Option.map_map]
    exact Option.map_id'
  have hgiven : argumentOf argNames args word
      = (argumentOf argNames (Recorded.arguments args) word).map Recorded.value := by
    rw [argumentOf, argumentOf, ← lookup_map_snd, List.map_reverse]
    conv_lhs => rw [← hargs, List.zip_map_right]
    rfl
  rw [leafOf, pointOf, hgiven]
  cases argumentOf argNames (Recorded.arguments args) word <;> rfl

/-- Another name is not recorded as the argument. -/
theorem not_reaches_leafOf_of_ne (C : Calculus α) (e : Expression) (args : List α)
    (hi : argNames[i]? = some name) (h : word ≠ name) :
    ¬(e.leafOf C argNames args word).Reaches i := by
  unfold leafOf
  cases hgiven : argumentOf argNames (Recorded.arguments args) word with
  | none => exact nofun
  | some x =>
    obtain ⟨j, v, hj, rfl⟩ := exists_position_of_argumentOf hgiven
    rintro ⟨⟩
    exact h (Option.some.inj (hj.symm.trans hi))

/-- The last argument of a name is recorded for it. -/
theorem exists_leafOf_of_last (C : Calculus α) (e : Expression) (hi : argNames[i]? = some name)
    (hlast : name ∉ argNames.drop (i + 1)) (hlength : args.length = argNames.length) :
    ∃ v, e.leafOf C argNames args name = .leaf (.argument i) v := by
  obtain ⟨hlt, -⟩ := List.getElem?_eq_some_iff.mp hi
  obtain ⟨v, hv⟩ : ∃ v, args[i]? = some v := ⟨_, List.getElem?_eq_getElem (by omega)⟩
  have hrecorded : (Recorded.arguments args)[i]? = some (.leaf (.argument i) v) := by
    rw [getElem?_arguments, hv]
    rfl
  exact ⟨v, by rw [leafOf, argumentOf_of_last hi hlast hrecorded]; rfl⟩

/-- **An earlier argument of a name is recorded nowhere.** -/
theorem not_reaches_leafOf_of_later (C : Calculus α) (e : Expression)
    (hi : argNames[i]? = some name) (hlater : name ∈ argNames.drop (i + 1))
    (hlength : args.length = argNames.length) (word : String) :
    ¬(e.leafOf C argNames args word).Reaches i := by
  by_cases h : word = name
  · obtain ⟨j, hj, hlast⟩ := exists_last hlater
    rw [List.getElem?_drop] at hj
    rw [List.drop_drop] at hlast
    obtain ⟨v, hv⟩ := exists_leafOf_of_last C e hj hlast hlength
    rw [h, hv]
    intro hposition
    have := Origin.argument.inj hposition
    omega
  · exact not_reaches_leafOf_of_ne C e args hi h

theorem recordedSlots_closureOver (C : Calculus α) (args : List α) (h : word ∈ e.table.names) :
    loaded ((e.closureOver argNames).recordedSlots C args) (e.table.names.idxOf word)
      = .ok (e.leafOf C argNames args word) := by
  have hcaptured : (e.closureOver argNames).captured[e.table.names.idxOf word]?
      = some (e.table.valueOf word) := Table.getElem?_values_idxOf h
  have hgiven : lastGiven ((e.closureOver argNames).argSlots.zip (Recorded.arguments args))
      (e.table.names.idxOf word) = argumentOf argNames (Recorded.arguments args) word :=
    lastGiven_idxOf h argNames _
  rw [loaded, Closure.recordedSlots, hgiven, hcaptured, leafOf]
  cases argumentOf argNames (Recorded.arguments args) word <;> rfl

variable {t : Tree}

/-- **The gradient of a formula is the derivative of its record.** -/
theorem gradientBy_closureOver (hprogram : e.program = t.program e.table.names.idxOf)
    (hnames : ∀ word ∈ t.names, word ∈ e.table.names) (D : Nat → Recorded α → α) (C : Calculus α)
    (i : Nat) (args : List α) :
    (e.closureOver argNames).gradientBy D C i args
      = .ok (D i (t.recorded C (e.leafOf C argNames args))) := by
  have hrecord : (e.closureOver argNames).record C args
      = .ok (t.recorded C (e.leafOf C argNames args)) := by
    show C.recording.eval _ e.program = _
    rw [hprogram, Arithmetic.eval, Arithmetic.result_run_program]
    exact t.evalIn_recording C _ fun word hw => recordedSlots_closureOver C args (hnames word hw)
  rw [Closure.gradientBy, hrecord]
  rfl

/-- The gradient by a name that is exposed nowhere. -/
theorem gradientBy_of_not_exposed (hprogram : e.program = t.program e.table.names.idxOf)
    (hnames : ∀ word ∈ t.names, word ∈ e.table.names) (hi : argNames[i]? = some name)
    (hexposed : name ∉ t.exposed) {C : Calculus α} {D : Nat → Recorded α → α} (hD : C.Drops D)
    (args : List α) : (e.closureOver argNames).gradientBy D C i args = .ok C.zero := by
  rw [gradientBy_closureOver hprogram hnames, hD.unreached]
  refine Tree.not_reaches_recorded C fun word hword => ?_
  refine not_reaches_leafOf_of_ne C e args hi ?_
  rintro rfl
  exact hexposed hword

/-- The gradient by an earlier argument of a name. -/
theorem gradientBy_of_later (hprogram : e.program = t.program e.table.names.idxOf)
    (hnames : ∀ word ∈ t.names, word ∈ e.table.names) (hi : argNames[i]? = some name)
    (hlater : name ∈ argNames.drop (i + 1)) {C : Calculus α} {D : Nat → Recorded α → α}
    (hD : C.Drops D) (hlength : args.length = argNames.length) :
    (e.closureOver argNames).gradientBy D C i args = .ok C.zero := by
  rw [gradientBy_closureOver hprogram hnames, hD.unreached]
  exact Tree.not_reaches_recorded C fun word _ =>
    not_reaches_leafOf_of_later C e hi hlater hlength word

/-- The gradient of a rational formula by the last argument of a name. -/
theorem gradientBy_of_last (hprogram : e.program = t.program e.table.names.idxOf)
    (hnames : ∀ word ∈ t.names, word ∈ e.table.names) (hi : argNames[i]? = some name)
    (hlast : name ∉ argNames.drop (i + 1)) {C : Calculus ℚ} (hC : C.Exact)
    {D : Nat → Recorded ℚ → ℚ} (hD : C.Differentiates D) (ht : t.Rational) {args : List ℚ}
    (hlength : args.length = argNames.length)
    (hdefined : t.DefinedAt C.constant (e.pointOf C argNames args)) :
    (e.closureOver argNames).gradientBy D C i args
      = .ok (t.exactSlope C.constant (e.pointOf C argNames args) name) := by
  obtain ⟨v, hv⟩ := exists_leafOf_of_last C e hi hlast hlength
  rw [gradientBy_closureOver hprogram hnames, Tree.derivative_recorded hC hD
    (value_leafOf C e argNames args) ht hdefined hv]
  exact fun word => not_reaches_leafOf_of_ne C e args hi

end Expression

end

/-! ## Gradients of closures -/

/-- Which argument is meant: a position counts from the front or, if it is negative, from the end,
and a name stands for the first argument with that name. -/
inductive Closure.Position.Means (argNames : List String) : Closure.Position → Nat → Prop
  | front {i : Nat} (h : i < argNames.length) : Means argNames (.index i) i
  | back {i : Nat} (h : i < argNames.length) :
    Means argNames (.index ((i : Int) - argNames.length)) i
  | name {i : Nat} {name : String} (h : argNames[i]? = some name)
    (hfirst : name ∉ argNames.take i) : Means argNames (.name name) i

theorem Closure.positionOf_of_means {f : Closure} {position : Closure.Position} {i : Nat}
    (h : position.Means f.argNames i) : f.positionOf position = .ok i := by
  cases h with
  | front h => rw [positionOf, if_neg (by omega), Int.toNat_natCast]
  | back h => rw [positionOf, if_pos (by omega), Int.sub_add_cancel, Int.toNat_natCast]
  | @name i name h hfirst =>
    have hidx : f.argNames.idxOf? name = some i := by
      obtain ⟨hi, hname⟩ := List.getElem?_eq_some_iff.mp h
      refine List.idxOf?_eq_some_iff.mpr ⟨hi, hname, fun j hj heq => hfirst ?_⟩
      exact List.mem_take_iff_getElem.mpr ⟨j, by omega, heq⟩
    simp only [positionOf, hidx]

/-- A gradient at the single elements of the arguments in order. -/
theorem Closure.use_slope {f : Closure} {K : Kernels} {position : Closure.Position} {i : Nat}
    (hposition : f.positionOf position = .ok i) {args : List (Tensor Double)}
    (hlength : args.length = f.argNames.length) {x : Double}
    (h : f.gradient K.calculus i (args.map fun t => t.get []) = .ok x) :
    f.use K ⟨args, []⟩ (.slope position) = .ok (.slope x) := by
  show f.perform K ⟨args, []⟩ (.slope position) = _
  rw [perform, hposition]
  exact withArguments_eq_ok hlength (congrArg (Except.map _) h)

/-- The gradient by the argument at a position is what a tree says: the formal derivative by the
name of the argument, which is the derivative of the value while all other names stay as they are.
If a later argument has the same name, or the program does not load it, it is 0. -/
def Closure.GradientOf (f : Closure) (C : Calculus ℚ) (D : Nat → Recorded ℚ → ℚ) (i : Nat)
    (name : String) (args : List ℚ) (ρ : String → ℚ) (t : Tree) : Prop :=
  if name ∈ f.argNames.drop (i + 1) ∨ name ∉ f.program.loadedNames then
    f.gradientBy D C i args = .ok 0
  else
    f.gradientBy D C i args = .ok (t.exactSlope C.constant ρ name) ∧
      HasDerivAt (fun x => t.exactValue C.constant (Function.update ρ name x))
        (t.exactSlope C.constant ρ name) (ρ name)

/-- Trees that are alike in exact computations have the same gradients. -/
theorem Closure.GradientOf.of_alike {f : Closure} {C : Calculus ℚ} {D : Nat → Recorded ℚ → ℚ}
    {i : Nat} {name : String} {args : List ℚ} {ρ : String → ℚ} {t u : Tree}
    (halike : ∀ ρ, Tree.ExactlyAlike C.constant ρ name t u)
    (h : f.GradientOf C D i name args ρ u) : f.GradientOf C D i name args ρ t := by
  have hvalue : ∀ ρ, t.exactValue C.constant ρ = u.exactValue C.constant ρ :=
    fun ρ => (halike ρ).value.symm
  unfold GradientOf at h ⊢
  simpa only [hvalue, ← (halike ρ).slope] using h

/-- **A closure over a tree has the gradients that the tree has.** -/
theorem Expression.gradientOf_closureOver {e : Expression} {t : Tree}
    (hprogram : e.program = t.program e.table.names.idxOf)
    (hnames : ∀ word ∈ t.names, word ∈ e.table.names) {argNames : List String} {i : Nat}
    {name : String} (hi : argNames[i]? = some name) {C : Calculus ℚ} (hC : C.Exact)
    {D : Nat → Recorded ℚ → ℚ} (hD : C.Differentiates D) (ht : t.Rational) {args : List ℚ}
    (hlength : args.length = argNames.length)
    (hdefined : t.DefinedAt C.constant (e.pointOf C argNames args)) :
    (e.closureOver argNames).GradientOf C D i name args (e.pointOf C argNames args) t := by
  have hloaded : (e.closureOver argNames).program.loadedNames = t.names.eraseDups := by
    show e.program.loadedNames = _
    rw [hprogram, Tree.loadedNames_program]
  simp only [Closure.GradientOf, argNames_closureOver, hloaded, List.mem_eraseDups]
  split
  · next h =>
    rw [← hC.zero]
    rcases h with hlater | hmissing
    · exact gradientBy_of_later hprogram hnames hi hlater hD.toDrops hlength
    · exact gradientBy_of_not_exposed hprogram hnames hi
        (mt Tree.mem_names_of_mem_exposed hmissing) hD.toDrops args
  · next h =>
    exact ⟨gradientBy_of_last hprogram hnames hi (not_or.mp h).1 hC hD ht hlength hdefined,
      Tree.hasDerivAt_exactValue ht hdefined⟩

/--
**A gradient is the derivative of the formula.**

A text with the tree `t` is made an expression, with or without folding, and the expression is made
a function of any names it knows, after some of its variables were set. The gradient by one of the
arguments is then found without an error, in whatever way derivatives are found, as long as it
follows the rules of differentiation.

In exact arithmetic, for signs and the four operations and where no denominator is zero, it is the
formal derivative by the name of the argument, of the tree in which constants are folded. It is the
one of the tree as it is written if nothing is folded, or if each constant that was folded is what
it stands for. And whatever the arithmetic and the operators are, it is 0 for a name that occurs
underneath factorials only, with doubles as well.
-/
theorem gradient_ofExpression {K : Kernels} {fold : Bool} {text : String} {t : Tree}
    (ht : IsReading text t) {e₀ : Expression} (he : Expression.ofText K fold text = .ok e₀)
    (before : List (String × Double)) (argNames : Option (List String))
    (hnames : ∀ name ∈ argNames.getD [], name ∈ e₀.table.names) :
    ∃ f, Closure.ofExpression (e₀.setAll before) argNames = .ok f ∧
      f.argNames = argNames.getD e₀.freeVariables ∧
      ∀ position i name, Closure.Position.Means f.argNames position i →
        f.argNames[i]? = some name →
        f.positionOf position = .ok i ∧
        (∀ C : Calculus ℚ, C.Exact → ∀ D, C.Differentiates D → t.Rational →
          ∀ args : List ℚ, args.length = f.argNames.length →
            let ρ := (e₀.setAll before).pointOf C f.argNames args
            let folded := Folding.tree ⟨K, fold⟩ t
            (folded.DefinedAt C.constant ρ → f.GradientOf C D i name args ρ folded) ∧
            (fold = false ∨ Folding.ExactOn ⟨K, fold⟩ C.constant t →
              t.DefinedAt C.constant ρ → f.GradientOf C D i name args ρ t)) ∧
        (name ∉ t.exposed →
          (∀ {α : Type} (C : Calculus α) (D : Nat → Recorded α → α), C.Drops D →
            ∀ args : List α, f.gradientBy D C i args = .ok C.zero) ∧
          ∀ (J : Kernels) (args : List (Tensor Double)), args.length = f.argNames.length →
            f.use J ⟨args, []⟩ (.slope position) = .ok (.slope .zero)) := by
  obtain ⟨u, hu, hprogram, htable⟩ := Expression.exists_tree_of_ofText he
  obtain rfl := hu.unique ht
  have hcompiled : (e₀.setAll before).Compiled := (Expression.Compiled.ofText he).setAll before
  have hknown : ∀ name ∈ argNames.getD (e₀.setAll before).freeVariables,
      name ∈ (e₀.setAll before).table.names :=
    hcompiled.mem_names_of_argument (by simpa using hnames)
  have hfolded : (e₀.setAll before).program
      = (Folding.tree ⟨K, fold⟩ u).program (e₀.setAll before).table.names.idxOf := by
    rw [Expression.names_setAll]
    exact hprogram
  have hwords : ∀ word ∈ (Folding.tree ⟨K, fold⟩ u).names,
      word ∈ (e₀.setAll before).table.names := by
    intro word hword
    rw [Folding.names_tree] at hword
    rw [Expression.names_setAll, htable]
    exact Table.mem_names_registerAll _ hword
  refine ⟨(e₀.setAll before).closureOver _, Closure.ofExpression_of_known hknown, rfl, ?_⟩
  intro position i name hposition hi
  have hpositionOf := Closure.positionOf_of_means
    (f := (e₀.setAll before).closureOver (argNames.getD (e₀.setAll before).freeVariables)) hposition
  refine ⟨hpositionOf, ?_, ?_⟩
  · intro C hC D hD hrational args hlength ρ folded
    have hgradient : folded.DefinedAt C.constant ρ → _ :=
      Expression.gradientOf_closureOver hfolded hwords hi hC hD (hrational.tree _) hlength
    refine ⟨hgradient, fun hexact hdefined => ?_⟩
    have hexactOn : Folding.ExactOn ⟨K, fold⟩ C.constant u :=
      hexact.elim (fun hoff => Folding.exactOn_of_not_enabled hoff C.constant u) id
    exact Closure.GradientOf.of_alike (fun ρ => Folding.exactlyAlike_tree hexactOn ρ name)
      (hgradient ((Folding.exactlyAlike_tree hexactOn ρ name).defined hdefined))
  · intro hexposed
    have hfoldedExposed : name ∉ (Folding.tree ⟨K, fold⟩ u).exposed :=
      mt (Tree.mem_exposed_of_tree _) hexposed
    refine ⟨fun C D hD args => ?_, fun J args hlength => Closure.use_slope hpositionOf hlength ?_⟩
    · exact Expression.gradientBy_of_not_exposed hfolded hwords hi hfoldedExposed hD args
    · exact Expression.gradientBy_of_not_exposed hfolded hwords hi hfoldedExposed
        (Recorded.drops_derivative J.calculus) _

/-- A folded sum, a variable that occurs on both sides and is given twice, and one that is
captured. -/
theorem gradient_ofExpression_shadowed :
    ∃ e₀ f, Expression.ofText .standard true "(1+2)*x/y - z*x" = .ok e₀ ∧
      Closure.ofExpression (e₀.setAll [("z", .ofNat 5)]) (some ["x", "y", "x"]) = .ok f ∧
      f.positionOf (.name "x") = .ok 0 ∧ f.gradient .rational 0 [7, 2, 3] = .ok 0 ∧
      f.positionOf (.index (-2)) = .ok 1 ∧ f.gradient .rational 1 [7, 2, 3] = .ok (-9 / 4) ∧
      f.positionOf (.index 2) = .ok 2 ∧ f.gradient .rational 2 [7, 2, 3] = .ok (-7 / 2) := by
  have hread : ∀ n < 10, Calculus.rational.constant (.ofNat n) = n := by
    intro n hn
    exact Magnitude.rational_ofNat (by omega)
  obtain ⟨t, ht, hrational, hexact, hdefined, hslope⟩ : ∃ t,
      IsReading "(1+2)*x/y - z*x" t ∧ t.Rational ∧
      Folding.ExactOn ⟨.standard, true⟩ Calculus.rational.constant t ∧
      (∀ ρ, ρ "y" ≠ 0 → t.DefinedAt Calculus.rational.constant ρ) ∧
      ∀ ρ, ρ "x" = 3 → ρ "y" = 2 → ρ "z" = 5 →
        t.exactSlope Calculus.rational.constant ρ "x" = -7 / 2 ∧
        t.exactSlope Calculus.rational.constant ρ "y" = -9 / 4 := by
    refine ⟨.binary .subtract
      (.binary .divide (.binary .multiply (.binary .add (.number (.ofNat 1)) (.number (.ofNat 2)))
        (.name "x")) (.name "y"))
      (.binary .multiply (.name "z") (.name "x")), Ordered.isReading_of_result (by decide +kernel),
      by simp [Tree.Rational], ?_, ?_, ?_⟩
    · have hsum : Kernels.standard.binary .add (.ofNat 1) (.ofNat 2) = .ofNat 3 := by
        decide +kernel
      have hfolded : Folding.tree ⟨.standard, true⟩ (.binary .add (.number (.ofNat 1))
          (.number (.ofNat 2))) = .number (.ofNat 3) := by
        simp only [Folding.tree, Folding.binary, if_true, hsum]
      refine ⟨⟨⟨⟨trivial, trivial, ?_⟩, trivial, by rintro v ⟨⟩⟩, trivial, by rintro v ⟨⟩⟩,
        ⟨trivial, trivial, by rintro v ⟨⟩⟩, by rintro v ⟨⟩⟩
      intro v hv ρ
      rw [hfolded] at hv
      rw [← Tree.number.inj hv]
      norm_num [Tree.exactValue, hread]
    · intro ρ hy
      simpa [Tree.DefinedAt, Tree.exactValue] using hy
    · intro ρ hx hy hz
      constructor <;> simp [Tree.exactSlope, Tree.exactValue, hx, hy, hz, hread] <;> norm_num
  have hcompile : (compile ⟨.standard, true⟩ "(1+2)*x/y - z*x" .withConstants).program
      = .ok [.push (.ofNat 3), .load 7 "x", .apply (.binary .multiply), .load 8 "y",
        .apply (.binary .divide), .load 9 "z", .load 7 "x", .apply (.binary .multiply),
        .apply (.binary .subtract)] := by
    decide +kernel
  obtain ⟨e₀, he⟩ : ∃ e₀, Expression.ofText .standard true "(1+2)*x/y - z*x" = .ok e₀ :=
    ⟨⟨_, _, _⟩, Expression.ofText_eq_ok_iff.mpr ⟨rfl, hcompile, rfl⟩⟩
  obtain ⟨-, hprogram, htable⟩ := Expression.ofText_eq_ok_iff.mp he
  rw [hcompile] at hprogram
  have hloaded : e₀.program.loadedNames = ["x", "y", "z"] := by
    rw [← Except.ok.inj hprogram]
    decide
  have hz : (e₀.table.setAll [("z", .ofNat 5)]).valueOf "z" = .ofNat 5 := by
    rw [← htable]
    decide +kernel
  have hknown : ∀ name ∈ ["x", "y", "x"], name ∈ e₀.table.names := by
    rw [← htable]
    decide +kernel
  obtain ⟨f, hf, hargs, hgradient⟩ :=
    gradient_ofExpression ht he [("z", .ofNat 5)] (some ["x", "y", "x"]) hknown
  have hloadedBy : f.program.loadedNames = ["x", "y", "z"] := by
    rw [← Except.ok.inj ((Closure.ofExpression_of_known (by simpa using hknown)).symm.trans hf)]
    exact hloaded
  replace hargs : f.argNames = ["x", "y", "x"] := hargs
  rw [hargs] at hgradient
  obtain ⟨hx, hy⟩ := hslope ((e₀.setAll [("z", .ofNat 5)]).pointOf .rational ["x", "y", "x"]
    [7, 2, 3]) rfl rfl ((congrArg Double.rational hz).trans (hread 5 (by decide)))
  have hpoint := hdefined ((e₀.setAll [("z", .ofNat 5)]).pointOf .rational ["x", "y", "x"]
    [7, 2, 3]) (by show (2 : ℚ) ≠ 0; norm_num)
  have hrules := Recorded.differentiates_derivative Calculus.exact_rational
  obtain ⟨hfirst, hgradient₀, -⟩ := hgradient (.name "x") 0 "x" (.name rfl (by simp)) rfl
  obtain ⟨hsecond, hgradient₁, -⟩ := hgradient (.index (-2)) 1 "y" (.back (i := 1) (by decide)) rfl
  obtain ⟨hlast, hgradient₂, -⟩ := hgradient (.index 2) 2 "x" (.front (i := 2) (by decide)) rfl
  replace hgradient₀ := (hgradient₀ .rational Calculus.exact_rational _ hrules hrational [7, 2, 3]
    rfl).2 (.inr hexact) hpoint
  replace hgradient₁ := (hgradient₁ .rational Calculus.exact_rational _ hrules hrational [7, 2, 3]
    rfl).2 (.inr hexact) hpoint
  replace hgradient₂ := (hgradient₂ .rational Calculus.exact_rational _ hrules hrational [7, 2, 3]
    rfl).2 (.inr hexact) hpoint
  rw [Closure.GradientOf, if_pos (.inl (by simp [hargs]))] at hgradient₀
  rw [Closure.GradientOf, if_neg (by simp [hargs, hloadedBy]), hy] at hgradient₁
  rw [Closure.GradientOf, if_neg (by simp [hargs, hloadedBy]), hx] at hgradient₂
  exact ⟨e₀, f, he, hf, hfirst, hgradient₀, hsecond, hgradient₁.1, hlast, hgradient₂.1⟩

/-- The rounded sum is no constant that the formula was written with: folding makes it 0, and so is
the gradient, even where it is computed exactly. The formula as it is written is `x`. -/
theorem gradient_of_rounded_constant :
    ∃ t e f, IsReading "(1e16+1-1e16)*x" t ∧ t.Rational ∧
      (∀ ρ, t.DefinedAt Calculus.rational.constant ρ) ∧
      Expression.ofText .standard true "(1e16+1-1e16)*x" = .ok e ∧
      Closure.ofExpression e none = .ok f ∧ f.argNames = ["x"] ∧
      f.gradient .rational 0 [2] = .ok 0 ∧
      ∀ ρ, t.exactSlope Calculus.rational.constant ρ "x" = 1 := by
  have hcompile : (compile ⟨.standard, true⟩ "(1e16+1-1e16)*x" .withConstants).program
      = .ok [.push .zero, .load 7 "x", .apply (.binary .multiply)] := by
    decide +kernel
  have he : Expression.ofText .standard true "(1e16+1-1e16)*x"
      = .ok ⟨"(1e16+1-1e16)*x", [.push .zero, .load 7 "x", .apply (.binary .multiply)],
        (compile ⟨.standard, true⟩ "(1e16+1-1e16)*x" .withConstants).table⟩ :=
    Expression.ofText_eq_ok_iff.mpr ⟨rfl, hcompile, rfl⟩
  obtain ⟨e, htext, hprogram, hx, hslot⟩ : ∃ e,
      Expression.ofText .standard true "(1e16+1-1e16)*x" = .ok e ∧
      e.program = [.push .zero, .load 7 "x", .apply (.binary .multiply)] ∧
      "x" ∈ e.table.names ∧ e.table.names.idxOf "x" = 7 :=
    ⟨_, he, rfl, by decide +kernel, by decide +kernel⟩
  have hfree : e.freeVariables = ["x"] := by
    rw [Expression.freeVariables, hprogram]
    decide
  have hf : Closure.ofExpression e none = .ok (e.closureOver ["x"]) := by
    rw [Closure.ofExpression_of_known (by simpa [hfree] using hx), Option.getD_none, hfree]
    rfl
  have hread : Calculus.rational.constant .one = 1 := Magnitude.rational_ofNat (by decide)
  have hfolded : e.program
      = (Tree.binary .multiply (.number .zero) (.name "x")).program e.table.names.idxOf := by
    rw [hprogram, ← hslot]
    rfl
  have hgradient : (e.closureOver ["x"]).gradient .rational 0 [2] = .ok _ :=
    Expression.gradientBy_of_last hfolded (by simpa [Tree.names] using hx) rfl (by simp)
      Calculus.exact_rational (Recorded.differentiates_derivative Calculus.exact_rational)
      ⟨trivial, trivial⟩ rfl ⟨trivial, trivial, fun h => by cases h⟩
  refine ⟨.binary .multiply (.binary .subtract (.binary .add (.number (.ofNat (10 ^ 16)))
    (.number .one)) (.number (.ofNat (10 ^ 16)))) (.name "x"), e, _,
    Ordered.isReading_of_result (by decide +kernel), by simp [Tree.Rational], ?_, htext, hf, rfl,
    ?_, ?_⟩
  · intro ρ
    simp [Tree.DefinedAt]
  · have hzero : Calculus.rational.constant .zero = 0 := Magnitude.rational_zero
    rw [hgradient]
    simp [Tree.exactSlope, hzero, Tree.exactValue]
  · intro ρ
    simp [Tree.exactSlope, Tree.exactValue, hread]

end Formula
