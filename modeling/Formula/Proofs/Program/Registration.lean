import Formula.Proofs.Program.Errors
import Formula.Proofs.Program.Names
import Formula.Proofs.Table.Values

/-!
# What a compilation leaves in the table

A compilation registers the names that it reads, and it reads a text up to its end or up to the
place where the text is refused. A yard releases every name at once, so the names that have been
released are those of the tokens that were taken (`filterMap_name?_takeAll`). The order of the
tokens and the errors know nothing of the table; it only says which slots are loaded.

Main statement (`compile_appends`): names and values that a table has stay, and behind them come the
names before the place that it did not know.
-/

namespace Formula

/-! ## Names in a yard -/

namespace Yard

theorem filterMap_name?_take {y y' : Yard} {t : Token} (h : y.take t = some y') :
    y'.released.filterMap Token.name?
      = y.released.filterMap Token.name? ++ [t].filterMap Token.name? := by
  cases t with
  | number v | name word =>
    cases h
    exact List.filterMap_append
  | op o =>
    cases h
    rw [List.filterMap_append, Token.filterMap_name?_ops]
    rfl
  | openBracket =>
    cases h
    exact (List.append_nil _).symm
  | closeBracket =>
    obtain ⟨s, -, rfl⟩ := Option.map_eq_some_iff.mp h
    rw [List.filterMap_append, Token.filterMap_name?_ops]
    rfl

/-- **The names that were taken have been released, in the same order.** -/
theorem filterMap_name?_takeAll {y y' : Yard} {ts : List Token} (h : y.takeAll ts = some y') :
    y'.released.filterMap Token.name?
      = y.released.filterMap Token.name? ++ ts.filterMap Token.name? := by
  induction ts generalizing y with
  | nil =>
    cases h
    exact (List.append_nil _).symm
  | cons t ts ih =>
    obtain ⟨z, hz, h⟩ := Option.bind_eq_some_iff.mp h
    rw [ih h, filterMap_name?_take hz, List.append_assoc, ← List.filterMap_append]
    rfl

end Yard

/-! ## Tokens before a place -/

/-- The tokens that are read in a text and begin before a place. -/
def tokensBefore (text : String) (pos : Nat) : List Token :=
  ((Tokens.ofText text).list.filter fun l => l.start < pos).map Located.token

/-- They are those that were read up to there. -/
theorem Reads.tokensBefore_eq {text : String} {ls : List Located} {e : Expected} {c : Cursor}
    (h : Reads .operand (Cursor.ofText text 0) ls e c) :
    tokensBefore text c.skipSpaces.pos = ls.map Located.token := by
  have hlist : (Tokens.ofText text).list = ls ++ (Tokens.read e c).list :=
    congrArg Tokens.list h.read_eq
  have hbefore : ls.filter (fun l => l.start < c.skipSpaces.pos) = ls := by
    refine List.filter_eq_self.mpr fun l hl => decide_eq_true ?_
    exact Nat.lt_of_lt_of_le (h.start_lt l hl) (Nat.le_add_right _ _)
  have hbehind : (Tokens.read e c).list.filter (fun l => l.start < c.skipSpaces.pos) = [] :=
    List.filter_eq_nil_iff.mpr fun l hl => by simpa using Reads.le_start hl
  rw [tokensBefore, hlist, List.filter_append, hbefore, hbehind, List.append_nil]

/-! ## Programs without slots -/

/-- An instruction that does not say where its name is. -/
def Instr.withoutSlot : Instr → Instr
  | .load _ name => .load 0 name
  | i => i

def Program.withoutSlots (p : Program) : Program := p.map Instr.withoutSlot

theorem Tree.withoutSlots_program (t : Tree) (slot : String → Nat) :
    Program.withoutSlots (t.program slot) = t.program fun _ => 0 := by
  induction t with
  | number v => rfl
  | name word => rfl
  | unary u t ih =>
    by_cases hu : u = .plus
    · rw [hu]
      exact ih
    · rw [program_unary hu, program_unary hu, ← ih]
      exact List.map_append
  | binary b l r ihl ihr =>
    rw [program, program, ← ihl, ← ihr, Program.withoutSlots, List.map_append, List.map_append]
    rfl

/-! ## The table and the program -/

section

variable (F : Folding) (text : String) (table : Table)

/-- The table is the one before with all released names registered. -/
theorem table_compile_eq : (compile F text table).table
    = table.registerAll ((Ordered.ofText text).released.filterMap Token.name?) := by
  rw [compile_eq]
  exact F.table_foldl_put _ ⟨[], table⟩

/-- **Two tables make no difference but for the slots.** -/
theorem withoutSlots_compile (table' : Table) :
    (compile F text table').program.map Program.withoutSlots
      = (compile F text table).program.map Program.withoutSlots := by
  cases hresult : (Ordered.ofText text).result with
  | error error =>
    rw [compile_eq, compile_eq, hresult]
    rfl
  | ok ts =>
    obtain ⟨t, ht, -⟩ := Ordered.result_eq_ok_iff.mp hresult
    rw [program_compile_of_isReading table' F ht, program_compile_of_isReading table F ht]
    refine congrArg Except.ok ?_
    rw [Tree.withoutSlots_program, Tree.withoutSlots_program]

/-- **The names that come in are those of the tokens that were read.** -/
theorem exists_tokens_compile : ∃ read,
    (∀ p, (compile F text table).program = .ok p →
        Splits text.toList read ∧ read = tokensOf text) ∧
      (∀ error, (compile F text table).program = .error error →
        Splits (text.toList.take error.start) read ∧ read = tokensBefore text error.start) ∧
      (compile F text table).table = table.registerAll (read.filterMap Token.name?) := by
  cases hprogram : (compile F text table).program with
  | ok p =>
    obtain ⟨t, ht⟩ := exists_isReading_of_compile table hprogram
    obtain ⟨hsplits, hphrase⟩ := ht.tokensOf
    refine ⟨tokensOf text, fun _ _ => ⟨hsplits, rfl⟩, nofun, ?_⟩
    rw [table_compile_of_isReading table F ht, hphrase.filterMap_name?]
  | error error =>
    obtain ⟨ls, e, c, y, hreads, hy, hrefused⟩ :=
      Ordered.exists_refused (program_compile_eq_error_iff.mp hprogram)
    refine ⟨ls.map Located.token, nofun, ?_, ?_⟩
    · rintro _ ⟨⟩
      rw [hrefused.start_eq]
      exact ⟨hreads.splits_take, hreads.tokensBefore_eq.symm⟩
    · rw [table_compile_eq, Ordered.ofText_of_refused hreads hy hrefused,
        Yard.filterMap_name?_takeAll hy]
      rfl

end

/--
**A compilation only adds names to the table.**

The tokens that are read are those of the text or, if the text is refused, those before the place
of the error, and they spell the text up to there. Behind the entries that were in the table stand
the names among these tokens that it did not know, each at its first place and with NaN. So the
names that it knew keep their slots and values, and no function comes in. With another table there
is the same program, apart from the slots, or the same error.
-/
theorem compile_appends (F : Folding) (text : String) (table : Table) :
    (∃ read,
      (∀ p, (compile F text table).program = .ok p →
          Splits text.toList read ∧ read = tokensOf text) ∧
        (∀ error, (compile F text table).program = .error error →
          Splits (text.toList.take error.start) read ∧ read = tokensBefore text error.start) ∧
        (compile F text table).table.entries = table.entries
          ++ (table.newNames (read.filterMap Token.name?)).map (fun name => (name, Double.nan)) ∧
        ∀ f : NamedFunction, f.symbol ∉ read.filterMap Token.name?) ∧
      (∀ name ∈ table.names,
        (compile F text table).table.slot? name = table.slot? name ∧
          (compile F text table).table.lookup name = table.lookup name) ∧
      ∀ table' : Table, (compile F text table').program.map Program.withoutSlots
        = (compile F text table).program.map Program.withoutSlots := by
  obtain ⟨read, hok, herror, htable⟩ := exists_tokens_compile F text table
  refine ⟨⟨read, hok, herror, ?_, ?_⟩, ?_, withoutSlots_compile F text table⟩
  · rw [htable, Table.entries_registerAll]
  · intro f
    cases hprogram : (compile F text table).program with
    | ok p => exact (hok p hprogram).1.symbol_not_mem f
    | error error => exact (herror error hprogram).1.symbol_not_mem f
  · intro name hname
    rw [htable]
    have hmem := Table.mem_names_registerAll_of_mem (read.filterMap Token.name?) hname
    refine ⟨?_, ?_⟩
    · rw [Table.slot?_of_mem hmem, Table.slot?_of_mem hname, Table.idxOf_names_registerAll _ hname]
    · rw [Table.lookup_of_mem hmem, Table.lookup_of_mem hname, Table.valueOf_registerAll]

end Formula
