import Formula.Closure.Use
import Formula.Proofs.Closure.Arguments
import Formula.Proofs.Expression.Compiled
import Formula.Proofs.Program.Columns
import Formula.Proofs.Program.Congruence

/-!
# Closures and columns

A closure computes with kernels of its own and with its own factorial, but on the same machine as
the evaluation over columns. Where its kernels agree with those for columns on everything that
occurs in a run (`AgreeAlong`), the value of the closure is the value over columns, with the
arguments as columns of their slots and all other slots as they were when the closure was formed
(`use_value_ofExpression`). The two factorials need no assumption beyond what they compare: they are
one function.
-/

namespace Formula

/-! ## Kernels that agree in a run -/

namespace Kernels

/-- On one element: a factorial compares it as it is, and a function has the same value. -/
def AgreeOn (J K : Kernels) : UnaryOp → Double → Prop
  | .factorial, x => J.compared x = x
  | .call f, x => J.call f x = K.call f x
  | .plus, _ | .minus, _ => True

/-- On what an instruction finds on the stack: a unary operator does the same on all elements, and a
binary operator gives the same array. -/
def AgreeAt (J K : Kernels) : Instr → List (Tensor Double) → Prop
  | .apply (.unary u), x :: _ => ∀ v ∈ x.data.toList, J.AgreeOn K u v
  | .apply (.binary b), y :: x :: _ => J.onTensors b x y = K.onTensors b x y
  | _, _ => True

instance (J K : Kernels) (u : UnaryOp) (x : Double) : Decidable (J.AgreeOn K u x) :=
  match u with
  | .factorial => inferInstanceAs (Decidable (J.compared x = x))
  | .call f => inferInstanceAs (Decidable (J.call f x = K.call f x))
  | .plus | .minus => .isTrue trivial

instance (J K : Kernels) (i : Instr) (stack : List (Tensor Double)) :
    Decidable (J.AgreeAt K i stack) :=
  match i, stack with
  | .apply (.unary u), x :: _ =>
    inferInstanceAs (Decidable (∀ v ∈ x.data.toList, J.AgreeOn K u v))
  | .apply (.binary b), y :: x :: _ =>
    inferInstanceAs (Decidable (J.onTensors b x y = K.onTensors b x y))
  | .apply (.unary _), [] | .apply (.binary _), [] | .apply (.binary _), [_]
  | .push _, _ | .load _ _, _ => .isTrue trivial

/-- The kernels agree at each instruction of a run. -/
def AgreeAlong (J K : Kernels) (slots : Nat → Option (Tensor Double)) (p : Program) : Prop :=
  K.batch.Along slots (J.AgreeAt K) p []

instance (J K : Kernels) (slots : Nat → Option (Tensor Double)) (p : Program) :
    Decidable (J.AgreeAlong K slots p) :=
  inferInstanceAs (Decidable (K.batch.Along slots (J.AgreeAt K) p []))

end Kernels

theorem Tensor.map_congr {α β : Type} {f g : α → β} {t : Tensor α}
    (h : ∀ x ∈ t.data.toList, f x = g x) : t.map f = t.map g := by
  have hdata : t.data.map f = t.data.map g :=
    Array.map_congr_left fun x hx => h x (Array.mem_toList_iff.mpr hx)
  simp only [map, hdata]

namespace Kernels

variable {J K : Kernels} {slots : Nat → Option (Tensor Double)}

/-- Both factorials are the factorial of a number. -/
theorem unaryBySteps_eq {u : UnaryOp} {x : Double} (h : J.AgreeOn K u x) :
    J.unaryBySteps u x = K.unaryOnElement u x := by
  rw [unaryOnElement_eq]
  cases u with
  | plus | minus => rfl
  | factorial =>
    show Double.factorialBySteps (J.compared x) = Double.factorial x
    rw [show J.compared x = x from h, Double.factorialBySteps_eq]
  | call f => exact h

theorem step_onArguments {i : Instr} {stack : List (Tensor Double)} (h : J.AgreeAt K i stack) :
    J.onArguments.step slots i stack = K.batch.step slots i stack := by
  refine Arithmetic.step_eq_step rfl ?_ ?_
  · rintro u x rest rfl rfl
    exact Tensor.map_congr fun v hv => unaryBySteps_eq (h v hv)
  · rintro b x y rest rfl rfl
    exact h

/-- **Where the kernels agree, arguments are computed with as columns are.** -/
theorem eval_onArguments {p : Program} (h : J.AgreeAlong K slots p) :
    J.onArguments.eval slots p = K.batch.eval slots p := by
  have hexec := Arithmetic.exec_eq_exec (fun i stack hi => step_onArguments hi) h
  rw [Arithmetic.eval, Arithmetic.eval, Arithmetic.run, Arithmetic.run, hexec]

end Kernels

/-! ## Arguments of names -/

section

variable {α : Type} {argNames : List String} {args : List α} {name : String}

/-- What a name is given as an argument; the last one counts. -/
def argumentOf (argNames : List String) (args : List α) (word : String) : Option α :=
  (argNames.zip args).reverse.lookup word

theorem argumentOf_isSome (h : name ∈ argNames) (hlength : args.length = argNames.length) :
    ∃ v, argumentOf argNames args name = some v := by
  refine exists_lookup_of_mem ?_
  rw [List.map_reverse, List.mem_reverse, List.map_fst_zip hlength.ge]
  exact h

/-- The slot of a name is given what the name is given. -/
theorem lastGiven_idxOf {known : List String} {word : String} (h : word ∈ known)
    (argNames : List String) (args : List α) :
    lastGiven ((argNames.map known.idxOf).zip args) (known.idxOf word)
      = argumentOf argNames args word := by
  rw [lastGiven, List.zip_map_left, ← List.map_reverse]
  exact lookup_map_fst (g := known.idxOf) (fun key hkey => (List.idxOf_inj h).mp hkey) _

end

/-! ## Forming a closure -/

namespace Closure

/-- A closure of known names takes their slots and the values of all slots. -/
theorem ofExpression_of_known {e : Expression} {argNames : Option (List String)}
    (h : ∀ name ∈ argNames.getD e.freeVariables, name ∈ e.table.names) :
    ofExpression e argNames
      = .ok ⟨argNames.getD e.freeVariables,
          (argNames.getD e.freeVariables).map e.table.names.idxOf, e.source, e.program,
          e.table.values⟩ := by
  have hunknown : ((argNames.getD e.freeVariables).filter fun n => !e.table.contains n) = [] := by
    rw [List.filter_eq_nil_iff]
    intro name hname
    simp [Table.contains, h name hname]
  have hslots : (argNames.getD e.freeVariables).filterMap e.table.slot?
      = (argNames.getD e.freeVariables).map e.table.names.idxOf := by
    rw [← List.filterMap_eq_map]
    refine List.filterMap_congr ?_
    intro name hname
    exact Table.slot?_of_mem (h name hname)
  simp only [ofExpression, hunknown, hslots, if_true]

end Closure

/-- An expression as a function of some of its names. -/
def Expression.closureOver (e : Expression) (argNames : List String) : Closure :=
  ⟨argNames, argNames.map e.table.names.idxOf, e.source, e.program, e.table.values⟩

@[simp] theorem Expression.argNames_closureOver (e : Expression) (argNames : List String) :
    (e.closureOver argNames).argNames = argNames := rfl

/-- Free variables are known in any case. -/
theorem Expression.Compiled.mem_names_of_argument {e : Expression} (h : e.Compiled)
    {argNames : Option (List String)} (hnames : ∀ name ∈ argNames.getD [], name ∈ e.table.names) :
    ∀ name ∈ argNames.getD e.freeVariables, name ∈ e.table.names := by
  cases argNames with
  | none => exact fun name hname => h.mem_names_of_free hname
  | some names => exact hnames

/-- As many arguments as there are names are taken in their order. -/
theorem Closure.withArguments_eq_ok {f : Closure} {args : List (Tensor Double)}
    {k : List (Tensor Double) → Except RunError Result} {r : Result}
    (hlength : args.length = f.argNames.length) (h : k args = .ok r) :
    f.withArguments ⟨args, []⟩ k = .ok r := by
  simp only [withArguments, Arguments.resolve_positional hlength, h]

/-- A closure is called with its arguments in order. -/
theorem Closure.use_value {f : Closure} {K : Kernels} {args : List (Tensor Double)}
    {a : Tensor Double} (hlength : args.length = f.argNames.length) (h : f.apply K args = .ok a) :
    f.use K ⟨args, []⟩ .value = .ok (.tensor a) :=
  withArguments_eq_ok hlength (congrArg (Except.map _) h)

/-- Arguments that stretch to a common shape do so as columns. -/
theorem Program.compatible_columnShapes (p : Program) (slots : List Nat)
    {args : List (Tensor Double)} (h : Tensor.Compatible (args.map Tensor.shape)) :
    Tensor.Compatible (p.columnShapes (slots.zip args)) := by
  obtain ⟨t, ht⟩ := h
  refine ⟨t, fun s hs => ht s ?_⟩
  obtain ⟨slot, -, hcolumn⟩ := List.mem_filterMap.mp hs
  obtain ⟨a, ha, rfl⟩ := Option.map_eq_some_iff.mp hcolumn
  have hmem : a ∈ args := (List.of_mem_zip (mem_of_lastGiven ha)).2
  exact List.mem_map_of_mem hmem

/--
**The value of a closure is the value over columns, with the other variables as they were when it
was formed.**

The closure is formed between two series of settings of an expression. Its arguments may be any
names of the expression, with repetitions, or are its free variables. As a column, the last
argument of a name counts. What is set later has no influence, and to use a closure leaves nothing
behind.
-/
theorem use_value_ofExpression {J K : Kernels} {fold : Bool} {text : String} {e₀ : Expression}
    (he : Expression.ofText K fold text = .ok e₀) (before after : List (String × Double))
    (argNames : Option (List String)) (hnames : ∀ name ∈ argNames.getD [], name ∈ e₀.table.names) :
    ∃ f, Closure.ofExpression (e₀.setAll before) argNames = .ok f ∧
      f.argNames = argNames.getD e₀.freeVariables ∧
      ∀ args : List (Tensor Double), args.length = f.argNames.length →
        Tensor.Compatible (args.map Tensor.shape) →
        let values := (e₀.setAll before).table.values
        let e := (e₀.setAll before).setAll after
        let columns := (f.argNames.map e.table.names.idxOf).zip args
        J.AgreeAlong K (slotsWith columns values) e.program →
        ∃ a, f.use J ⟨args, []⟩ .value = .ok (.tensor a) ∧
          e.program.evalBatch K values columns = .ok a := by
  have hcompiled : (e₀.setAll before).Compiled := (Expression.Compiled.ofText he).setAll before
  have hknown : ∀ name ∈ argNames.getD (e₀.setAll before).freeVariables,
      name ∈ (e₀.setAll before).table.names := by
    intro name hname
    cases argNames with
    | none => exact hcompiled.mem_names_of_free hname
    | some names =>
      rw [Expression.names_setAll]
      exact hnames name hname
  refine ⟨_, Closure.ofExpression_of_known hknown, rfl, ?_⟩
  intro args hlength hargs values e columns hagree
  have hcolumns : columns = ((argNames.getD (e₀.setAll before).freeVariables).map
      (e₀.setAll before).table.names.idxOf).zip args := by
    simp only [columns, e, Expression.names_setAll]
  obtain ⟨a, ha, -⟩ := hcompiled.evalBatch K (fun l hl => hcompiled.slot_lt hl)
    ((e₀.setAll before).program.compatible_columnShapes _ hargs)
  rw [← hcolumns] at ha
  refine ⟨a, ?_, ha⟩
  have hvalue : J.onArguments.eval (slotsWith columns values) e.program = .ok a :=
    (Kernels.eval_onArguments hagree).trans ha
  rw [hcolumns] at hvalue
  exact Closure.use_value hlength hvalue

/-- Without subnormals in sight, on arrays of three shapes; the first of them is shadowed. -/
theorem use_value_ofExpression_shadowed :
    ∃ e₀ f a, Expression.ofText .standard true "x!*y - z/(2*2)" = .ok e₀ ∧
      Closure.ofExpression (e₀.setAll [("z", .ofNat 6), ("w", .one)]) (some ["x", "y", "x"])
        = .ok f ∧
      f.use .flushing ⟨[⟨[1], #[.nan], rfl⟩, ⟨[2], #[.zero, .infinity], rfl⟩,
          ⟨[2, 1], #[.ofNat 3, .ofNat 5], rfl⟩], []⟩ .value = .ok (.tensor a) ∧
      Program.evalBatch ((e₀.setAll [("z", .ofNat 6), ("w", .one)]).setAll [("z", .nan)]).program
          .standard (e₀.setAll [("z", .ofNat 6), ("w", .one)]).table.values
          [(7, ⟨[1], #[.nan], rfl⟩), (8, ⟨[2], #[.zero, .infinity], rfl⟩),
            (7, ⟨[2, 1], #[.ofNat 3, .ofNat 5], rfl⟩)] = .ok a := by
  have hcompile : (compile ⟨.standard, true⟩ "x!*y - z/(2*2)" .withConstants).program
      = .ok [.load 7 "x", .apply (.unary .factorial), .load 8 "y", .apply (.binary .multiply),
        .load 9 "z", .push (.ofNat 4), .apply (.binary .divide),
        .apply (.binary .subtract)] := by
    decide +kernel
  have he : Expression.ofText .standard true "x!*y - z/(2*2)"
      = .ok ⟨"x!*y - z/(2*2)", [.load 7 "x", .apply (.unary .factorial), .load 8 "y",
          .apply (.binary .multiply), .load 9 "z", .push (.ofNat 4), .apply (.binary .divide),
          .apply (.binary .subtract)],
        (compile ⟨.standard, true⟩ "x!*y - z/(2*2)" .withConstants).table⟩ := by
    rw [Expression.ofText, Template.ofText_eq_ok_iff (t := ⟨_, _⟩) |>.mpr ⟨hcompile, rfl⟩]
    rfl
  obtain ⟨f, hf, hnames, hvalue⟩ := use_value_ofExpression (J := .flushing) he
    [("z", .ofNat 6), ("w", .one)] [("z", .nan)] (some ["x", "y", "x"]) (by decide +kernel)
  rw [hnames] at hvalue
  obtain ⟨a, huse, hbatch⟩ := hvalue [⟨[1], #[.nan], rfl⟩, ⟨[2], #[.zero, .infinity], rfl⟩,
    ⟨[2, 1], #[.ofNat 3, .ofNat 5], rfl⟩] rfl ⟨[2, 2], by decide⟩ (by decide +kernel)
  refine ⟨_, f, a, he, hf, huse, ?_⟩
  rw [← hbatch]
  congr 1
  decide +kernel

end Formula
