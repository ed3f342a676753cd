import Formula.Proofs.Closure.Agreement
import Formula.Proofs.Session.Batch
import Formula.Proofs.Tensor.Stack

/-!
# Closures mapped over an axis

A closure that is mapped over an axis is applied to the parts of its arguments at each place of the
axis, and the values are stacked. They have one shape, because the shape of a value depends on the
shapes of the arguments alone (`apply_closureOver`). So the part of the result at a place is the
value on the parts at that place, also if some or all arguments have no influence.

Of the mapping itself nothing is used but that (`Mapping.Stacks`): over axes of one extent, a
function whose values on parts have one shape yields these values along a new leading axis. Any two
mappings that do so agree (`Mapping.Stacks.eq`), and to stack the values is one of them.

Over vectors, each place is one row of columns, and the stack is the evaluation over columns as long
as any column is loaded. Otherwise the evaluation over columns yields a single value, where mapping
yields one for each place (`use_mapped_ofExpression`).
-/

namespace Formula

namespace Closure

/-! ## Parts of arguments -/

/-- The shape of the parts of an argument. -/
def partShape (t : Tensor Double) : Option Int → List Nat
  | none => t.shape
  | some axis => t.shape.eraseIdx (axisOf t axis)

/-- The arguments are mapped over axes of extent `n`: each has an entry, an axis that is given
exists, and there is at least one. -/
structure MappedOver (n : Nat) (axes : List (Option Int)) (args : List (Tensor Double)) : Prop where
  length_eq : axes.length = args.length
  mapped : ∃ axis, some axis ∈ axes
  extent {t : Tensor Double} {axis : Int} (h : (t, some axis) ∈ args.zip axes) :
    -(t.shape.length : Int) ≤ axis ∧ axis < t.shape.length ∧ t.shape[axisOf t axis]? = some n

theorem shape_partAt (i : Nat) (t : Tensor Double) (axis : Option Int) :
    (partAt i t axis).shape = partShape t axis := by
  cases axis <;> rfl

theorem map_shape_parts (i : Nat) (args : List (Tensor Double)) (axes : List (Option Int)) :
    (List.zipWith (partAt i) args axes).map Tensor.shape = List.zipWith partShape args axes := by
  rw [List.map_zipWith]
  simp only [shape_partAt]

theorem MappedOver.mappedExtent_eq {n : Nat} {axes : List (Option Int)}
    {args : List (Tensor Double)} (h : MappedOver n axes args) : mappedExtent args axes = n := by
  obtain ⟨axis, haxis⟩ := h.mapped
  have hzip : (args.zip axes).map Prod.snd = axes := List.map_snd_zip h.length_eq.le
  rw [← hzip] at haxis
  obtain ⟨⟨t, _⟩, hmem, rfl⟩ := List.mem_map.mp haxis
  unfold mappedExtent
  generalize hfind : List.findSome? _ (args.zip axes) = found
  cases found with
  | none => cases (h.extent hmem).2.2.symm.trans (List.findSome?_eq_none_iff.mp hfind _ hmem)
  | some m =>
    obtain ⟨⟨u, a⟩, hu, hm⟩ := List.exists_of_findSome?_eq_some hfind
    cases a with
    | none => cases hm
    | some a => exact (Option.some.inj ((h.extent hu).2.2.symm.trans hm)).symm

/-! ## Mapping a function -/

section

variable {n : Nat} {axes : List (Option Int)} {args : List (Tensor Double)} {shape : List Nat}
  {g : List (Tensor Double) → Except RunError (Tensor Double)}

/-- What a mapping is known to do: where all axes have one extent, and the values of the function on
parts have one shape, the result has the extent in front of this shape, and at each place of its
first axis the value on the parts at that place. -/
structure Mapping.Stacks (mapping : Mapping) : Prop where
  stack {n : Nat} {axes : List (Option Int)} {args : List (Tensor Double)} {shape : List Nat}
    {g : List (Tensor Double) → Except RunError (Tensor Double)} (hmapped : MappedOver n axes args)
    (hg : ∀ parts : List (Tensor Double),
      parts.map Tensor.shape = List.zipWith partShape args axes →
        ∃ b, g parts = .ok b ∧ b.shape = shape) :
    ∃ a, mapping axes g args = .ok a ∧ a.shape = n :: shape ∧
      ∀ i < n, g (List.zipWith (partAt i) args axes) = .ok (a.slice 0 i)

/-- **All mappings with these properties agree.** -/
theorem Mapping.Stacks.eq {mapping mapping' : Mapping} (h : mapping.Stacks) (h' : mapping'.Stacks)
    (hmapped : MappedOver n axes args)
    (hg : ∀ parts : List (Tensor Double),
      parts.map Tensor.shape = List.zipWith partShape args axes →
        ∃ b, g parts = .ok b ∧ b.shape = shape) :
    mapping axes g args = mapping' axes g args := by
  obtain ⟨a, ha, hshape, hslice⟩ := h.stack hmapped hg
  obtain ⟨a', ha', hshape', hslice'⟩ := h'.stack hmapped hg
  have hsame : a = a' := Tensor.eq_of_slice_eq hshape hshape' fun i hi =>
    Except.ok.inj ((hslice i hi).symm.trans (hslice' i hi))
  rw [ha, ha', hsame]

/-- Values of one shape at all places are stacked. -/
theorem stacking_of_forall {value : Nat → Tensor Double}
    (hvalue : ∀ i, g (List.zipWith (partAt i) args axes) = .ok (value i))
    (hshape : ∀ i, (value i).shape = shape) :
    stacking axes g args
      = .ok (Tensor.stack shape ((List.range (mappedExtent args axes)).map value)) := by
  have hparts : (List.range (mappedExtent args axes)).mapM
      (fun i => g (List.zipWith (partAt i) args axes))
      = .ok ((List.range (mappedExtent args axes)).map value) := by
    rw [funext hvalue]
    exact List.mapM_pure
  simp only [stacking, hvalue 0, hparts, hshape]

/-- **To stack the values is such a mapping.** -/
theorem stacks_stacking : Mapping.Stacks stacking where
  stack {n axes args shape g} hmapped hg := by
    choose value hvalue hshape using fun i => hg _ (map_shape_parts i args axes)
    refine ⟨_, stacking_of_forall hvalue hshape, ?_, fun i hi => ?_⟩
    · rw [hmapped.mappedExtent_eq]
      simp [Tensor.stack, Tensor.ofFn]
    · rw [hvalue i, hmapped.mappedExtent_eq,
        Tensor.slice_stack (x := value i) (by simp [hi]) (hshape i)]

end

variable {f : Closure} {K : Kernels} {axes : MappedAxes} {args : List (Tensor Double)}

/-- A closure is mapped with its arguments in order. -/
theorem use_mapped {a : Tensor Double} (hlength : args.length = f.argNames.length)
    (h : f.applyMapped K axes args = .ok a) :
    f.use K ⟨args, []⟩ (.mapped axes) = .ok (.tensor a) :=
  withArguments_eq_ok hlength (congrArg (Except.map _) h)

end Closure

/-! ## Values on parts -/

theorem lastGiven_zip_map {α β : Type} (f : α → β) (slots : List Nat) (args : List α)
    (slot : Nat) :
    lastGiven (slots.zip (args.map f)) slot = (lastGiven (slots.zip args) slot).map f := by
  rw [lastGiven, lastGiven, List.zip_map_right, ← List.map_reverse]
  exact lookup_map_snd f slot _

/-- The shapes of columns depend on the shapes of the arguments alone. -/
theorem columnShapes_zip (slots given : List Nat) (args : List (Tensor Double)) :
    columnShapes (given.zip args) slots
      = slots.filterMap (lastGiven (given.zip (args.map Tensor.shape))) :=
  List.filterMap_congr fun slot _ => (lastGiven_zip_map Tensor.shape given args slot).symm

namespace Expression

variable {e : Expression} {argNames : List String}

/-- **The value on arguments that fit together has the joint shape of those that are loaded.** -/
theorem Compiled.apply_closureOver (h : e.Compiled) (argNames : List String) (K : Kernels)
    {args : List (Tensor Double)} (hargs : Tensor.Compatible (args.map Tensor.shape)) :
    ∃ a, (e.closureOver argNames).apply K args = .ok a ∧
      Tensor.IsJoint (e.program.columnShapes ((argNames.map e.table.names.idxOf).zip args))
        a.shape := by
  obtain ⟨value, hvalue⟩ := h.eval_elementwise K K.unaryBySteps
  obtain ⟨a, ha, hshape, -⟩ := hvalue e.table.values _ (fun l hl => h.slot_lt hl)
    (e.program.compatible_columnShapes (argNames.map e.table.names.idxOf) hargs)
  exact ⟨a, ha, hshape⟩

/-- Arguments of the same shapes have values of the same shape. -/
theorem Compiled.shape_apply_closureOver (h : e.Compiled) (argNames : List String) (K : Kernels)
    {args : List (Tensor Double)} (hargs : Tensor.Compatible (args.map Tensor.shape)) :
    ∃ shape, ∀ args' : List (Tensor Double), args'.map Tensor.shape = args.map Tensor.shape →
      ∃ a, (e.closureOver argNames).apply K args' = .ok a ∧ a.shape = shape := by
  obtain ⟨a, -, ha⟩ := h.apply_closureOver argNames K hargs
  refine ⟨a.shape, fun args' hshapes => ?_⟩
  obtain ⟨a', happly, ha'⟩ := h.apply_closureOver argNames K (hshapes ▸ hargs)
  refine ⟨a', happly, ha'.unique ?_⟩
  rw [Program.columnShapes, columnShapes_zip, hshapes, ← columnShapes_zip]
  exact ha

/-- **A mapped closure stacks its values on the parts**, however it is mapped. -/
theorem Compiled.use_mapped_closureOver (h : e.Compiled) (K : Kernels) {axes : Closure.MappedAxes}
    {args : List (Tensor Double)} {n : Nat} (hlength : args.length = argNames.length)
    (hmapped : Closure.MappedOver n (axes.toList args.length) args)
    (hparts : Tensor.Compatible
      (List.zipWith Closure.partShape args (axes.toList args.length))) :
    ∃ a shape, (e.closureOver argNames).use K ⟨args, []⟩ (.mapped axes) = .ok (.tensor a) ∧
      (∀ mapping : Closure.Mapping, mapping.Stacks →
        (e.closureOver argNames).applyMappedBy mapping K axes args = .ok a) ∧
      a.shape = n :: shape ∧
      (∀ parts : List (Tensor Double), parts.map Tensor.shape
          = List.zipWith Closure.partShape args (axes.toList args.length) →
        ∃ b, (e.closureOver argNames).use K ⟨parts, []⟩ .value = .ok (.tensor b) ∧
          b.shape = shape) ∧
      ∀ i < n, (e.closureOver argNames).use K
          ⟨List.zipWith (Closure.partAt i) args (axes.toList args.length), []⟩ .value
        = .ok (.tensor (a.slice 0 i)) := by
  have hshapes := fun i => Closure.map_shape_parts i args (axes.toList args.length)
  have hcount : ∀ parts : List (Tensor Double), parts.map Tensor.shape
      = List.zipWith Closure.partShape args (axes.toList args.length) →
      parts.length = (e.closureOver argNames).argNames.length := by
    intro parts hshape
    have hcount := congrArg List.length hshape
    rw [List.length_map, List.length_zipWith, hmapped.length_eq, Nat.min_self, hlength] at hcount
    exact hcount
  have hparts₀ : Tensor.Compatible
      ((List.zipWith (Closure.partAt 0) args (axes.toList args.length)).map Tensor.shape) := by
    rw [hshapes 0]
    exact hparts
  obtain ⟨shape, hshape⟩ := h.shape_apply_closureOver argNames K hparts₀
  rw [hshapes 0] at hshape
  obtain ⟨a, ha, haShape, hslice⟩ := Closure.stacks_stacking.stack hmapped hshape
  refine ⟨a, shape, Closure.use_mapped hlength ha, fun mapping hstacks => ?_, haShape, ?_, ?_⟩
  · exact (hstacks.eq Closure.stacks_stacking hmapped hshape).trans ha
  · intro parts hpart
    obtain ⟨b, hb, hbShape⟩ := hshape parts hpart
    exact ⟨b, Closure.use_value (hcount parts hpart) hb, hbShape⟩
  · intro i hi
    exact Closure.use_value (hcount _ (hshapes i)) (hslice i hi)

end Expression

/-! ## Vectors -/

section

variable {n i : Nat}

theorem Closure.zipWith_all {β : Type} (f : Tensor Double → Option Int → β) (axis : Int)
    (args : List (Tensor Double)) :
    List.zipWith f args ((MappedAxes.all axis).toList args.length)
      = args.map fun x => f x (some axis) := by
  rw [MappedAxes.toList]
  induction args with
  | nil => rfl
  | cons x args ih =>
    rw [List.length_cons, List.replicate_succ, List.zipWith_cons_cons, ih, List.map_cons]

/-- Vectors have one axis to be mapped over. -/
theorem Closure.mappedOver_vectors {args : List (Tensor Double)} (hne : args ≠ [])
    (hvectors : ∀ x ∈ args, x.shape = [n]) :
    MappedOver n ((MappedAxes.all 0).toList args.length) args where
  length_eq := List.length_replicate
  mapped := ⟨0, List.mem_replicate.mpr ⟨fun h => hne (List.length_eq_zero_iff.mp h), rfl⟩⟩
  extent {t axis} h := by
    obtain ⟨ht, haxis⟩ := List.of_mem_zip h
    obtain rfl := Option.some.inj (List.mem_replicate.mp haxis).2
    rw [hvectors t ht]
    exact ⟨by simp, by simp, rfl⟩

theorem shape_slice_vector {x : Tensor Double} (hx : x.shape = [n]) (i : Nat) :
    (x.slice 0 i).shape = [] := by
  show x.shape.eraseIdx 0 = []
  rw [hx]
  rfl

/-- The part of a vector at a place is its element there. -/
theorem read_slice_vector {x : Tensor Double} (hx : x.shape = [n]) (hi : i < n) :
    (x.slice 0 i).read [] = x.read [i] := by
  have hself : [i] ∈ Tensor.indices x.shape := hx ▸ Tensor.mem_indices.mpr (.cons hi .nil)
  have hget : (x.slice 0 i).get [] = x.get [i] := by
    refine x.get_slice ?_
    rw [hx]
    exact List.mem_cons_self
  rw [Tensor.read_self hself, ← hget]
  refine Tensor.read_self ?_
  rw [shape_slice_vector hx i]
  exact List.mem_cons_self

/-- A vector is the stack of its elements. -/
theorem eq_stack_of_vector {b : Tensor Double} {part : Nat → Tensor Double} (hb : b.shape = [n])
    (hpart : ∀ i, (part i).shape = []) (hget : ∀ i < n, (part i).get [] = b.read [i]) :
    b = Tensor.stack [] ((List.range n).map part) := by
  refine Tensor.ext_get (hb.trans (by simp [Tensor.stack, Tensor.ofFn])) fun ix hix => ?_
  rw [hb] at hix
  obtain ⟨i, hi, rfl⟩ : ∃ i, i < n ∧ ix = [i] := by
    cases Tensor.mem_indices.mp hix with
    | cons hi hnil =>
      cases hnil
      exact ⟨_, hi, rfl⟩
  have hself : [i] ∈ Tensor.indices b.shape := hb ▸ hix
  have hslice : (Tensor.stack [] ((List.range n).map part)).slice 0 i = part i :=
    Tensor.slice_stack (by simp [hi]) (hpart i)
  rw [← Tensor.read_self hself, ← hget i hi, ← hslice, Tensor.get_slice]
  · rfl
  · exact List.mem_cons_self

/-- A single number that is read at any place. -/
theorem eq_of_single {b c : Tensor Double} (hb : b.shape = []) (hc : c.shape = [])
    (h : c.get [] = b.read [i]) : c = b := by
  refine Tensor.ext_get (hc.trans hb.symm) fun ix hix => ?_
  rw [hc] at hix
  obtain rfl := List.mem_singleton.mp hix
  rw [h, Tensor.read, hb]
  rfl

/-- Columns that all have one shape. -/
theorem eq_of_mem_columnShapes {slots given : List Nat} {args : List (Tensor Double)}
    {shape s : List Nat} (h : ∀ x ∈ args, x.shape = s)
    (hshape : shape ∈ columnShapes (given.zip args) slots) : shape = s := by
  obtain ⟨slot, -, hcolumn⟩ := List.mem_filterMap.mp hshape
  obtain ⟨x, hx, rfl⟩ := Option.map_eq_some_iff.mp hcolumn
  exact h x (List.of_mem_zip (mem_of_lastGiven hx)).2

/-- The values at a place of some vectors are those of their parts at that place. -/
theorem valuesAt_slices {slots : List Nat} {args : List (Tensor Double)}
    (hargs : ∀ x ∈ args, x.shape = [n]) (hi : i < n) (values : List Double) :
    valuesAt (slots.zip (args.map fun x => x.slice 0 i)) values []
      = valuesAt (slots.zip args) values [i] := by
  unfold valuesAt
  congr 1
  funext slot v
  rw [lastGiven_zip_map]
  cases hcolumn : lastGiven (slots.zip args) slot with
  | none => rfl
  | some x => exact read_slice_vector (hargs x (List.of_mem_zip (mem_of_lastGiven hcolumn)).2) hi

end

namespace Expression

variable {e : Expression} {argNames : List String} {args : List (Tensor Double)}

/-- Arguments as columns of their names. -/
theorem columnSlots_zip (hargs : ∀ name ∈ argNames, name ∈ e.table.names)
    (args : List (Tensor Double)) :
    e.columnSlots (argNames.zip args) = (argNames.map e.table.names.idxOf).zip args := by
  rw [columnSlots, List.zip_map_left, ← List.filterMap_eq_map]
  refine List.filterMap_congr fun c hc => ?_
  rw [Table.slot?_of_mem (hargs c.1 (List.of_mem_zip hc).1)]
  rfl

/-- The shapes that count are those of the arguments that are loaded. -/
theorem Compiled.mem_columnShapes_zip_iff (h : e.Compiled)
    (hargs : ∀ name ∈ argNames, name ∈ e.table.names) {shape : List Nat} :
    shape ∈ e.program.columnShapes ((argNames.map e.table.names.idxOf).zip args) ↔
      ∃ name ∈ e.program.loadedNames, ∃ x, argumentOf argNames args name = some x ∧
        x.shape = shape := by
  rw [← columnSlots_zip hargs]
  exact h.mem_columnShapes_iff

/-- A column is loaded if the name of an argument is. -/
theorem Compiled.columnShapes_zip_ne_nil_iff (h : e.Compiled)
    (hargs : ∀ name ∈ argNames, name ∈ e.table.names) (hlength : args.length = argNames.length) :
    e.program.columnShapes ((argNames.map e.table.names.idxOf).zip args) ≠ [] ↔
      ∃ name ∈ argNames, name ∈ e.program.loadedNames := by
  constructor
  · intro hne
    obtain ⟨shape, hshape⟩ := List.exists_mem_of_ne_nil _ hne
    obtain ⟨name, hname, x, hx, -⟩ := (h.mem_columnShapes_zip_iff hargs).mp hshape
    have hmem := List.mem_reverse.mp (mem_of_lookup_eq_some hx)
    exact ⟨name, (List.of_mem_zip hmem).1, hname⟩
  · rintro ⟨name, harg, hname⟩
    obtain ⟨x, hx⟩ := argumentOf_isSome harg hlength
    exact List.ne_nil_of_mem ((h.mem_columnShapes_zip_iff hargs).mpr ⟨name, hname, x, hx, rfl⟩)

/-- **The value on the parts of vectors at a place is the element of the value on the vectors**, a
single number. -/
theorem Compiled.apply_vectors (h : e.Compiled) (argNames : List String) {K : Kernels}
    (hK : K.UniformOn e.program) {n : Nat} (hvectors : ∀ x ∈ args, x.shape = [n]) :
    ∃ b, (e.closureOver argNames).apply K args = .ok b ∧
      Tensor.IsJoint (e.program.columnShapes ((argNames.map e.table.names.idxOf).zip args))
        b.shape ∧
      ∀ i, ∃ c, (e.closureOver argNames).apply K (args.map fun x => x.slice 0 i) = .ok c ∧
        c.shape = [] ∧ (i < n → c.get [] = b.read [i]) := by
  obtain ⟨value, hvalue⟩ := h.eval_elementwise K K.unaryBySteps
  have hslots : ∀ l ∈ e.program.loads, l.1 < e.table.values.length := fun l hl => h.slot_lt hl
  -- columns of one shape stretch to it
  have hstretch : ∀ {given : List (Tensor Double)} {s : List Nat}, (∀ x ∈ given, x.shape = s) →
      ∀ shape ∈ e.program.columnShapes ((argNames.map e.table.names.idxOf).zip given),
        Tensor.StretchesTo shape s :=
    fun hgiven shape hshape => eq_of_mem_columnShapes hgiven hshape ▸ .refl shape
  obtain ⟨b, hb, hbJoint, hbRead⟩ :=
    hvalue e.table.values _ hslots ⟨[n], hstretch hvectors⟩
  refine ⟨b, hb, hbJoint, fun i => ?_⟩
  have hscalars : ∀ x ∈ args.map fun x => x.slice 0 i, x.shape = [] := by
    intro x hx
    obtain ⟨y, hy, rfl⟩ := List.mem_map.mp hx
    exact shape_slice_vector (hvectors y hy) i
  obtain ⟨c, hc, hcJoint, hcRead⟩ :=
    hvalue e.table.values _ hslots ⟨[], hstretch hscalars⟩
  have hshape : c.shape = [] := (hcJoint.least [] (hstretch hscalars)).antisymm (.nil _)
  refine ⟨c, hc, hshape, fun hi => ?_⟩
  have hplace : [i] ∈ Tensor.indices [n] := Tensor.mem_indices.mpr (.cons hi .nil)
  have hsingle : [] ∈ Tensor.indices c.shape := by
    rw [hshape]
    exact List.mem_cons_self
  rw [← Tensor.read_self hsingle, hcRead hK _ (.refl _) [] hsingle, valuesAt_slices hvectors hi,
    hbRead hK [n] (hbJoint.least [n] (hstretch hvectors)) [i] hplace]

/--
**Mapped over vectors, a closure yields its value on the vectors**, if any of them is loaded. If
none is, that value is a single one, and it stands at each place of what is mapped.
-/
theorem Compiled.use_mapped_vectors (h : e.Compiled)
    (hargs : ∀ name ∈ argNames, name ∈ e.table.names) {K : Kernels} (hK : K.UniformOn e.program)
    {n : Nat} (hlength : args.length = argNames.length) (hne : args ≠ [])
    (hvectors : ∀ x ∈ args, x.shape = [n]) :
    ∃ a b, (e.closureOver argNames).use K ⟨args, []⟩ (.mapped (.all 0)) = .ok (.tensor a) ∧
      (e.closureOver argNames).apply K args = .ok b ∧ a.shape = [n] ∧
      if ∃ name ∈ argNames, name ∈ e.program.loadedNames then b = a
      else b.shape = [] ∧ ∀ i < n, a.slice 0 i = b := by
  obtain ⟨b, hb, hbJoint, hparts⟩ := h.apply_vectors argNames hK hvectors
  choose part hpart hpartShape hpartGet using hparts
  have hpartAt : ∀ i, (e.closureOver argNames).apply K
      (List.zipWith (Closure.partAt i) args ((Closure.MappedAxes.all 0).toList args.length))
      = .ok (part i) := by
    intro i
    rw [Closure.zipWith_all]
    exact hpart i
  have hmapped := Closure.stacking_of_forall hpartAt hpartShape
  rw [(Closure.mappedOver_vectors hne hvectors).mappedExtent_eq] at hmapped
  have hloaded := h.columnShapes_zip_ne_nil_iff hargs hlength
  refine ⟨_, b, Closure.use_mapped hlength hmapped, hb, by simp [Tensor.stack, Tensor.ofFn], ?_⟩
  split
  · next hany =>
    have hbShape : b.shape = [n] := hbJoint.unique (.of_forall_eq (hloaded.mpr hany)
      fun shape hmem => eq_of_mem_columnShapes hvectors hmem)
    exact eq_stack_of_vector hbShape hpartShape hpartGet
  · next hnone =>
    have hbShape : b.shape = [] := by
      rw [Classical.not_not.mp fun hne => hnone (hloaded.mp hne)] at hbJoint
      exact hbJoint.unique .nil
    refine ⟨hbShape, fun i hi => ?_⟩
    rw [Tensor.slice_stack (x := part i) (by simp [hi]) (hpartShape i)]
    exact eq_of_single hbShape (hpartShape i) (hpartGet i hi)

end Expression

/--
**A mapped closure is the stack of its values on the parts of the arguments.**

The closure is formed of an expression after some of its variables were set. Its arguments may be
any names of the expression, with repetitions, or are its free variables. If each axis exists and
all have one extent, and the parts of the arguments stretch to a common shape, then the result has
this extent in front of the shape of a value on parts, and its part at each place is the value on
the parts at that place; an argument without an axis is passed whole. Any mapping that stacks values
has this result.

Over vectors, this is the value over columns of the same names, where the kernels for columns agree
with those of the closure, as soon as the program loads any of the arguments. If it loads none, the
value over columns is a single one, and it is the part of the result at each place.
-/
theorem use_mapped_ofExpression {J K : Kernels} {fold : Bool} {text : String} {e₀ : Expression}
    (he : Expression.ofText K fold text = .ok e₀) (before : List (String × Double))
    (argNames : Option (List String)) (hnames : ∀ name ∈ argNames.getD [], name ∈ e₀.table.names) :
    ∃ f, Closure.ofExpression (e₀.setAll before) argNames = .ok f ∧
      f.argNames = argNames.getD e₀.freeVariables ∧
      (∀ (axes : Closure.MappedAxes) (args : List (Tensor Double)) (n : Nat),
        args.length = f.argNames.length →
        let each := axes.toList args.length
        Closure.MappedOver n each args →
        Tensor.Compatible (List.zipWith Closure.partShape args each) →
        ∃ a shape, f.use J ⟨args, []⟩ (.mapped axes) = .ok (.tensor a) ∧
          (∀ mapping : Closure.Mapping, mapping.Stacks →
            f.applyMappedBy mapping J axes args = .ok a) ∧
          a.shape = n :: shape ∧
          (∀ parts : List (Tensor Double),
            parts.map Tensor.shape = List.zipWith Closure.partShape args each →
            ∃ b, f.use J ⟨parts, []⟩ .value = .ok (.tensor b) ∧ b.shape = shape) ∧
          ∀ i < n, f.use J ⟨List.zipWith (Closure.partAt i) args each, []⟩ .value
            = .ok (.tensor (a.slice 0 i))) ∧
      ∀ (args : List (Tensor Double)) (n : Nat), args.length = f.argNames.length → args ≠ [] →
        (∀ x ∈ args, x.shape = [n]) → J.UniformOn e₀.program →
        let e := e₀.setAll before
        J.AgreeAlong K (slotsWith (e.columnSlots (f.argNames.zip args)) e.table.values) e.program →
        ∃ a b, f.use J ⟨args, []⟩ (.mapped (.all 0)) = .ok (.tensor a) ∧
          e.evalBatch K (f.argNames.zip args) = .ok b ∧ a.shape = [n] ∧
          if ∃ name ∈ f.argNames, name ∈ e₀.program.loadedNames then b = a
          else b.shape = [] ∧ ∀ i < n, a.slice 0 i = b := by
  have hcompiled : (e₀.setAll before).Compiled := (Expression.Compiled.ofText he).setAll before
  have hknown : ∀ name ∈ argNames.getD (e₀.setAll before).freeVariables,
      name ∈ (e₀.setAll before).table.names :=
    hcompiled.mem_names_of_argument (by simpa using hnames)
  refine ⟨(e₀.setAll before).closureOver _, Closure.ofExpression_of_known hknown, rfl, ?_, ?_⟩
  · intro axes args n hlength each hmapped hparts
    exact hcompiled.use_mapped_closureOver J hlength hmapped hparts
  · intro args n hlength hne hvectors huniform e hagree
    obtain ⟨a, b, ha, hb, hshape, hsame⟩ :=
      hcompiled.use_mapped_vectors hknown (K := J) huniform hlength hne hvectors
    refine ⟨a, b, ha, ?_, hshape, hsame⟩
    rw [Expression.evalBatch, Program.evalBatch, ← Kernels.eval_onArguments hagree,
      Expression.argNames_closureOver, Expression.columnSlots_zip hknown]
    exact hb

/-- A matrix along its last axis, a vector, and an argument that is shadowed and passed whole; then
three vectors. -/
theorem use_mapped_ofExpression_last_axis :
    ∃ e₀ f a shape c, Expression.ofText .standard true "x*y - z" = .ok e₀ ∧
      Closure.ofExpression (e₀.setAll [("z", .ofNat 6)]) (some ["x", "y", "x"]) = .ok f ∧
      f.use .flushing ⟨[⟨[1], #[.nan], rfl⟩,
          ⟨[2, 3], #[.one, .zero, .nan, .one, .infinity, .one], rfl⟩,
          ⟨[3], #[.ofNat 2, .ofNat 3, .one], rfl⟩], []⟩
        (.mapped (.each [none, some 1, some (-1)])) = .ok (.tensor a) ∧
      a.shape = 3 :: shape ∧
      (∀ i < 3, f.use .flushing ⟨[⟨[1], #[.nan], rfl⟩,
          Tensor.slice ⟨[2, 3], #[.one, .zero, .nan, .one, .infinity, .one], rfl⟩ 1 i,
          Tensor.slice ⟨[3], #[.ofNat 2, .ofNat 3, .one], rfl⟩ 0 i], []⟩ .value
        = .ok (.tensor (a.slice 0 i))) ∧
      f.use .flushing ⟨[⟨[2], #[.nan, .nan], rfl⟩, ⟨[2], #[.zero, .infinity], rfl⟩,
          ⟨[2], #[.ofNat 3, .ofNat 5], rfl⟩], []⟩ (.mapped (.all 0)) = .ok (.tensor c) ∧
      (e₀.setAll [("z", .ofNat 6)]).evalBatch .standard [("x", ⟨[2], #[.nan, .nan], rfl⟩),
          ("y", ⟨[2], #[.zero, .infinity], rfl⟩), ("x", ⟨[2], #[.ofNat 3, .ofNat 5], rfl⟩)]
        = .ok c := by
  have hcompile : (compile ⟨.standard, true⟩ "x*y - z" .withConstants).program
      = .ok [.load 7 "x", .load 8 "y", .apply (.binary .multiply), .load 9 "z",
        .apply (.binary .subtract)] := by
    decide +kernel
  have he : Expression.ofText .standard true "x*y - z" = .ok ⟨_, _, _⟩ :=
    Expression.ofText_eq_ok_iff.mpr ⟨rfl, hcompile, rfl⟩
  obtain ⟨f, hf, hnames, hmapped, hvectors⟩ := use_mapped_ofExpression (J := .flushing) he
    [("z", .ofNat 6)] (some ["x", "y", "x"]) (by decide +kernel)
  rw [show f.argNames = ["x", "y", "x"] from hnames] at hmapped hvectors
  obtain ⟨a, shape, ha, -, hshape, -, hslices⟩ := hmapped (.each [none, some 1, some (-1)])
    [⟨[1], #[.nan], rfl⟩, ⟨[2, 3], #[.one, .zero, .nan, .one, .infinity, .one], rfl⟩,
      ⟨[3], #[.ofNat 2, .ofNat 3, .one], rfl⟩] 3 rfl
    { length_eq := rfl
      mapped := ⟨1, by decide⟩
      extent := by
        intro t axis h
        simp only [Closure.MappedAxes.toList, List.zip_cons_cons, List.mem_cons, Prod.mk.injEq] at h
        rcases h with ⟨-, h⟩ | ⟨rfl, h⟩ | ⟨rfl, h⟩ | h
        · cases h
        · cases h
          exact ⟨by decide, by decide, rfl⟩
        · cases h
          exact ⟨by decide, by decide, rfl⟩
        · cases h }
    ⟨[2], by decide⟩
  obtain ⟨c, b, hc, hb, -, hsame⟩ := hvectors [⟨[2], #[.nan, .nan], rfl⟩,
    ⟨[2], #[.zero, .infinity], rfl⟩, ⟨[2], #[.ofNat 3, .ofNat 5], rfl⟩] 2 rfl nofun
    (by simp) (fun _ _ => rfl) (by decide +kernel)
  rw [if_pos ⟨"x", by decide, by decide⟩] at hsame
  subst hsame
  exact ⟨_, f, a, shape, b, he, hf, ha, hshape, hslices, hc, hb⟩

/-- A constant over a column is a single number, where mapping yields one for each place. -/
theorem mapped_ne_evalBatch_of_constant :
    ∃ e f a b, Expression.ofText .standard true "2" = .ok e ∧
      Closure.ofExpression e (some ["pi"]) = .ok f ∧
      Kernels.flushing.UniformOn e.program ∧
      Kernels.flushing.AgreeAlong .standard (slotsWith
        (e.columnSlots [("pi", ⟨[3], #[.one, .ofNat 2, .ofNat 3], rfl⟩)]) e.table.values)
        e.program ∧
      f.use .flushing ⟨[⟨[3], #[.one, .ofNat 2, .ofNat 3], rfl⟩], []⟩ (.mapped (.all 0))
        = .ok (.tensor a) ∧
      e.evalBatch .standard [("pi", ⟨[3], #[.one, .ofNat 2, .ofNat 3], rfl⟩)] = .ok b ∧
      b ≠ a := by
  have hcompile : (compile ⟨.standard, true⟩ "2" .withConstants).program
      = .ok [.push (.ofNat 2)] := by
    decide +kernel
  have he : Expression.ofText .standard true "2"
      = .ok ⟨"2", [.push (.ofNat 2)], (compile ⟨.standard, true⟩ "2" .withConstants).table⟩ :=
    Expression.ofText_eq_ok_iff.mpr ⟨rfl, hcompile, rfl⟩
  obtain ⟨e, htext, hprogram, htable⟩ : ∃ e, Expression.ofText .standard true "2" = .ok e ∧
      e.program = [.push (.ofNat 2)] ∧ "pi" ∈ e.table.names :=
    ⟨_, he, rfl, by decide +kernel⟩
  have hf : Closure.ofExpression e (some ["pi"]) = .ok _ :=
    Closure.ofExpression_of_known (by simpa using htable)
  refine ⟨e, _, ⟨[3], #[.ofNat 2, .ofNat 2, .ofNat 2], rfl⟩, .scalar (.ofNat 2), htext, hf, ?_, ?_,
    ?_, ?_, ?_⟩
  · exact fun _ _ => rfl
  · rw [hprogram]
    exact ⟨trivial, trivial⟩
  · rw [hprogram]
    rfl
  · rw [Expression.evalBatch, hprogram]
    rfl
  · intro h
    cases congrArg Tensor.shape h

end Formula
