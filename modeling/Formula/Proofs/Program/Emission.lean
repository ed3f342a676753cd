import Formula.Proofs.Grammar.Yard
import Formula.Proofs.Table.Register
import Formula.Proofs.Token.Splitting

/-!
# Compiling in two stages

A compilation puts the tokens of a text in order and builds a program from them in that order. The
order knows neither the table nor whether constants are folded; in it all errors are found. What is
built depends on the order alone. So compilations of one text with and without folding differ only
in the programs they build (`compile_eq`).

Main statement: a text is put in order exactly if it reads as a formula, and its order is then the
postorder of its tree (`result_eq_ok_iff`).
-/

namespace Formula

/-! ## Building in a given order -/

/-- The name that a token brings into the table. -/
def Token.name? : Token → Option String
  | .name word => some word
  | _ => none

/-- Operators bring no names. -/
theorem Token.filterMap_name?_ops (os : List Op) :
    (os.map Token.op).filterMap Token.name? = [] := by
  rw [List.filterMap_map]
  exact List.filterMap_eq_nil_iff.mpr fun _ _ => rfl

theorem Tree.filterMap_name?_postorder (t : Tree) :
    t.postorder.filterMap Token.name? = t.names := by
  induction t with
  | number v => rfl
  | name word => rfl
  | unary u t ih => rw [postorder, List.filterMap_append, ih]; exact List.append_nil _
  | binary b l r ihl ihr =>
    rw [postorder, List.filterMap_append, List.filterMap_append, ihl, ihr]
    exact List.append_nil _

/-- The instructions built so far, the last one first, and the table with the names. -/
structure Draft where
  output : List Instr
  table : Table

namespace Folding

variable (F : Folding)

/-- Builds one more token in. Brackets are never released. -/
def put (d : Draft) : Token → Draft
  | .number v => { d with output := .push v :: d.output }
  | .name word => ⟨.load (d.table.names.idxOf word) word :: d.output, d.table.register word⟩
  | .op o => { d with output := F.emit o d.output }
  | .openBracket | .closeBracket => d

/-- Builds tokens in order. -/
def build (table : Table) (ts : List Token) : Draft := ts.foldl F.put ⟨[], table⟩

theorem build_append (table : Table) (ts us : List Token) :
    F.build table (ts ++ us) = us.foldl F.put (F.build table ts) := List.foldl_append

theorem foldl_put_ops (os : List Op) (d : Draft) :
    (os.map .op).foldl F.put d
      = { d with output := os.foldl (fun out o => F.emit o out) d.output } := by
  induction os generalizing d with
  | nil => rfl
  | cons o os ih => exact ih (F.put d (.op o))

/-- **The table depends on the names alone.** -/
theorem table_foldl_put (ts : List Token) (d : Draft) :
    (ts.foldl F.put d).table = d.table.registerAll (ts.filterMap Token.name?) := by
  induction ts generalizing d with
  | nil => rfl
  | cons t ts ih =>
    rw [List.foldl_cons, ih]
    cases t <;> rfl

theorem emitPreceding_eq (incoming : Op) (pending : List Pending) (output : List Instr) :
    F.emitPreceding incoming pending output
      = ((Yard.splitPreceding incoming pending).2,
        (Yard.splitPreceding incoming pending).1.foldl (fun out o => F.emit o out) output) := by
  induction pending generalizing output with
  | nil => rfl
  | cons p pending ih =>
    cases p with
    | bracket => rfl
    | op o =>
      rw [emitPreceding, Yard.splitPreceding]
      split
      · exact ih (F.emit o output)
      · rfl

theorem closeBracket_eq (pending : List Pending) (output : List Instr) :
    F.closeBracket pending output = (Yard.splitBracket pending).map fun s =>
      (s.2, s.1.foldl (fun out o => F.emit o out) output) := by
  induction pending generalizing output with
  | nil => rfl
  | cons p pending ih =>
    cases p with
    | bracket => rfl
    | op o =>
      rw [closeBracket, Yard.splitBracket, ih, Option.map_map]
      rfl

theorem emitAll_eq (pending : List Pending) (output : List Instr) :
    F.emitAll pending output = (Yard.operators pending).map fun os =>
      os.foldl (fun out o => F.emit o out) output := by
  induction pending generalizing output with
  | nil => rfl
  | cons p pending ih =>
    cases p with
    | bracket => rfl
    | op o =>
      rw [emitAll, Yard.operators, ih, Option.map_map]
      rfl

end Folding

/-! ## Putting a text in order -/

namespace Yard

/-- Takes one token; a close bracket without an open one is an error. -/
def step (y : Yard) (t : Located) : Except CompileError Yard :=
  match y.take t.token with
  | some y => .ok y
  | none => .error ⟨.unmatchedCloseBracket, t.start, t.start + 1, some ")"⟩

/-- Takes tokens up to the first error, which leaves the yard before it. -/
def run (y : Yard) : List Located → Yard × Option CompileError
  | [] => (y, none)
  | t :: rest =>
    match y.step t with
    | .ok y => y.run rest
    | .error e => (y, some e)

/-- The order of all tokens, or what is wrong at the end. -/
def finish (y : Yard) : TokenEnd → Except CompileError (List Token)
  | .failed e => .error e
  | .stopped .operand cursor => .error (cursor.error .operandExpected cursor.rest.length)
  | .stopped .operator cursor =>
    if cursor.rest ≠ [] then .error (cursor.error .unexpectedInput cursor.rest.length)
    else match y.all with
      | some ts => .ok ts
      | none => .error (cursor.error .missingCloseBracket 0)

theorem run_append {y y' : Yard} {ls : List Located} (us : List Located)
    (h : y.takeAll (ls.map Located.token) = some y') : y.run (ls ++ us) = y'.run us := by
  induction ls generalizing y with
  | nil => rw [Option.some.inj h]; rfl
  | cons t ls ih =>
    obtain ⟨z, hz, h⟩ := Option.bind_eq_some_iff.mp h
    rw [List.cons_append, run, step, hz]
    exact ih h

theorem run_of_takeAll {y y' : Yard} {ls : List Located}
    (h : y.takeAll (ls.map Located.token) = some y') : y.run ls = (y', none) := by
  rw [← List.append_nil ls, run_append [] h, run]

theorem takeAll_of_run {y y' : Yard} {ls : List Located} (h : y.run ls = (y', none)) :
    y.takeAll (ls.map Located.token) = some y' := by
  induction ls generalizing y with
  | nil => cases h; rfl
  | cons t ls ih =>
    rw [run, step] at h
    rw [List.map_cons, takeAll]
    cases ht : y.take t.token with
    | none => rw [ht] at h; cases h
    | some z => rw [ht] at h; exact ih h

end Yard

/-- What putting a text in order yields: the tokens that were released before the end or the first
error, and the order of all tokens or that error. -/
structure Ordered where
  released : List Token
  result : Except CompileError (List Token)

namespace Ordered

def ofText (text : String) : Ordered :=
  match Yard.start.run (Tokens.ofText text).list with
  | (y, some e) => ⟨y.released, .error e⟩
  | (y, none) => ⟨y.released, y.finish (Tokens.ofText text).ending⟩

end Ordered

/-! ## A compiler is a yard that builds -/

namespace Yard

/-- The compiler that has built what the yard released. -/
def compiler (F : Folding) (table : Table) (y : Yard) : Compiler :=
  ⟨y.pending, (F.build table y.released).output, (F.build table y.released).table⟩

variable (F : Folding) (table : Table)

theorem compiler_append (y : Yard) (ts : List Token) (pending : List Pending) :
    compiler F table ⟨y.released ++ ts, pending⟩
      = ⟨pending, (ts.foldl F.put (F.build table y.released)).output,
        (ts.foldl F.put (F.build table y.released)).table⟩ := by
  rw [compiler, F.build_append]

/-- **One token.** -/
theorem step_compiler (y : Yard) (t : Located) :
    (y.compiler F table).step F t = (y.step t).map (compiler F table) := by
  rcases t with ⟨token, start⟩
  cases token with
  | number v => exact congrArg Except.ok (compiler_append F table y [.number v] y.pending).symm
  | name word =>
    simp only [Compiler.step, Table.slotFor_eq]
    exact congrArg Except.ok (compiler_append F table y [.name word] y.pending).symm
  | openBracket => rfl
  | op o =>
    -- what the operator sets free is emitted here and released there
    refine Eq.trans ?_ (congrArg Except.ok (compiler_append F table y _ _).symm)
    rw [F.foldl_put_ops]
    simp only [Compiler.step, F.emitPreceding_eq]
    rfl
  | closeBracket =>
    simp only [Compiler.step, step, take, F.closeBracket_eq]
    rw [show (y.compiler F table).pending = y.pending from rfl]
    cases splitBracket y.pending with
    | none => rfl
    | some s =>
      refine Eq.trans ?_ (congrArg Except.ok (compiler_append F table y _ _).symm)
      rw [F.foldl_put_ops]
      rfl

/-- **All tokens.** -/
theorem run_compiler (y : Yard) (ls : List Located) :
    (y.compiler F table).run F ls = ((y.run ls).1.compiler F table, (y.run ls).2) := by
  induction ls generalizing y with
  | nil => rfl
  | cons t ls ih =>
    rw [Compiler.run, step_compiler, run]
    cases y.step t with
    | ok z => exact ih z
    | error e => rfl

theorem finish_compiler (y : Yard) (ending : TokenEnd) :
    (y.compiler F table).finish F ending
      = (y.finish ending).map fun ts => (F.build table ts).output.reverse := by
  rcases ending with ⟨_ | _, cursor⟩ | e
  · rfl
  · rw [Compiler.finish, finish]
    split
    · rfl
    · rw [compiler, F.emitAll_eq, all]
      cases operators y.pending with
      | none => rfl
      | some os =>
        show Except.ok _ = Except.ok (F.build table (y.released ++ os.map .op)).output.reverse
        rw [F.build_append, F.foldl_put_ops]
  · rfl

end Yard

/-- **A compilation puts the text in order and then builds in that order.** -/
theorem compile_eq (F : Folding) (text : String) (table : Table) :
    compile F text table
      = ⟨(F.build table (Ordered.ofText text).released).table,
        (Ordered.ofText text).result.map fun ts => (F.build table ts).output.reverse⟩ := by
  have hrun := Yard.run_compiler F table Yard.start (Tokens.ofText text).list
  have hstart : Compiler.start table = Yard.start.compiler F table := rfl
  unfold compile Ordered.ofText
  simp only [hstart, hrun]
  rcases Yard.start.run (Tokens.ofText text).list with ⟨y, _ | e⟩
  · simp only [Yard.finish_compiler]
    rfl
  · rfl

/-- An error is found when the text is put in order. -/
theorem program_compile_eq_error_iff {F : Folding} {text : String} {table : Table}
    {error : CompileError} : (compile F text table).program = .error error ↔
      (Ordered.ofText text).result = .error error := by
  rw [compile_eq]
  cases (Ordered.ofText text).result with
  | ok ts => exact ⟨nofun, nofun⟩
  | error e => exact ⟨fun h => by cases h; rfl, fun h => by cases h; rfl⟩

/-! ## Readings -/

/-- A tree of the text: the text splits into the tokens of an expression with that tree. -/
def IsReading (text : String) (t : Tree) : Prop :=
  ∃ ts, Splits text.toList ts ∧ Phrase .expr ts t

namespace Ordered

variable {text : String} {t u : Tree}

theorem ofText_of_isReading (h : IsReading text t) :
    (ofText text).result = .ok t.postorder ∧
      ∃ os : List Op, (ofText text).released ++ os.map .op = t.postorder := by
  obtain ⟨ts, hsplits, ht⟩ := h
  obtain ⟨hlist, p, hending⟩ := Tokens.read_splits hsplits ht.through 0
  obtain ⟨rs, os, htake, hrs, -⟩ := Yard.takes_phrase ht [] [] (Yard.steady_nil _)
  have hrun : Yard.start.run (Tokens.ofText text).list = (⟨rs, os.map .op⟩, none) := by
    refine Yard.run_of_takeAll ?_
    show Yard.start.takeAll ((Tokens.read .operand ⟨0, text.toList⟩).list.map _) = _
    rw [hlist, Yard.start, htake, List.append_nil]
    rfl
  have hend : (Tokens.ofText text).ending = .stopped .operator ⟨p, []⟩ := hending
  have hall : Yard.all ⟨rs, os.map .op⟩ = some t.postorder := by
    rw [Yard.all, Yard.operators_map, ← hrs]
    rfl
  unfold ofText
  simp only [hrun, hend, Yard.finish, hall]
  exact ⟨rfl, os, hrs⟩

/-- **A text is put in order exactly if it reads as a formula.** -/
theorem result_eq_ok_iff {rs : List Token} :
    (ofText text).result = .ok rs ↔ ∃ t, IsReading text t ∧ rs = t.postorder := by
  constructor
  · intro h
    unfold ofText at h
    split at h
    · cases h
    · next y hrun =>
      have htake := Yard.takeAll_of_run hrun
      rcases hend : (Tokens.ofText text).ending with ⟨_ | _, cursor⟩ | e
      · rw [hend] at h
        cases h
      · obtain ⟨hthrough, hsplits⟩ := Tokens.splits_read hend
        rw [hend] at h
        simp only [Yard.finish] at h
        split at h
        · cases h
        · next hrest =>
          split at h
          · next ts hall =>
            cases h
            have horder : Yard.order ((Tokens.ofText text).list.map Located.token) = some rs := by
              rw [Yard.order, htake]
              exact hall
            obtain ⟨t, ht, rfl⟩ := (Yard.order_eq_some_iff hthrough).mp horder
            exact ⟨t, ⟨_, hsplits (Classical.not_not.mp hrest), ht⟩, rfl⟩
          · cases h
      · rw [hend] at h
        cases h
  · rintro ⟨t, ht, rfl⟩
    exact (ofText_of_isReading ht).1

/-- A text that is put in the order of a tree has that tree. -/
theorem isReading_of_result {t : Tree} (h : (ofText text).result = .ok t.postorder) :
    IsReading text t := by
  obtain ⟨u, hu, hpostorder⟩ := result_eq_ok_iff.mp h
  rwa [Tree.postorder_injective hpostorder]

end Ordered

/-- **A text has at most one tree.** -/
theorem IsReading.unique {text : String} {t u : Tree} (ht : IsReading text t)
    (hu : IsReading text u) : t = u :=
  Tree.postorder_injective (Except.ok.inj
    ((Ordered.ofText_of_isReading ht).1.symm.trans (Ordered.ofText_of_isReading hu).1))

end Formula
