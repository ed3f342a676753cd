import Formula.Proofs.Double.Nearest
import Formula.Proofs.Expression.Variables
import Formula.Proofs.Report.Lines
import Formula.Proofs.Session.Cache
import Formula.Report.Data

/-!
# Each line on its own

All lines of a report go through one cache and one stack. Neither can be noticed. The cache holds
under each text what the text compiles to, whatever lines came before, and a run leaves the stack as
it was. So a line has the row that it would have as the only one (`rowsFrom_eq_ok_iff`), and its
result is the value of its formula, however often it is evaluated (`rowAlone_of_isReading`).

One thing can prevent a report altogether. The rate of a line is computed from its trials, and that
needs a double which can hold them. A line that does not compile has no rate and needs none.

Main statement: `rows_line_by_line`.
-/

namespace Formula

/-- Evaluations of an expression are all alike; the last one is missing if there is none. -/
theorem Expression.Compiled.lastResult_eq {e : Expression} (h : e.Compiled) (K : Kernels)
    (n : Nat) : e.lastResult K n = if n = 0 then none else some (e.eval K) := by
  unfold Expression.lastResult
  cases n with
  | zero => rfl
  | succ n =>
    rw [Arithmetic.lastResult, h.run_eq K []]
    rfl

namespace Report

/-! ## Trials -/

/-- Numbers that a double can hold: those before the middle of the greatest one and `2 ^ 1024`. -/
def IsCount (n : Int) : Prop := n.natAbs < (2 ^ 54 - 1) * 2 ^ 970

theorem count_of_isCount {n : Int} (h : IsCount n) : ∃ x, Statistic.count n = .ok x := by
  refine ⟨Double.ofInt n, if_neg fun hinfinite => ?_⟩
  exact Nat.not_le.mpr h (Magnitude.ofNat_eq_top_iff.mp (of_decide_eq_true hinfinite))

theorem count_of_not_isCount {n : Int} (h : ¬IsCount n) : Statistic.count n = .error .tooLarge :=
  if_pos (decide_eq_true (Magnitude.ofNat_eq_top_iff.mpr (Nat.not_lt.mp h)))

/-! ## A line as the only one -/

section

variable (K : Kernels) (s : Settings) (o : Options)

/-- The row of a line that no other line came before. -/
def rowAlone (line : String) : Except Statistic.RateError Row :=
  (rowOf (.empty s.cacheCapacity) K s o line).map Prod.snd

/-- What the names of a line stand for: variables that are set, constants, and NaN. -/
def meaning (name : String) : Double :=
  if name = "a" then .ofNat 1
  else if name = "b" then .ofNat 2
  else if name = "c" then .ofNat 3
  else if name = "d" then .ofNat 4
  else (Table.constants.lookup name).getD .nan

/-- The row of a line: the value of its formula, if there are trials, or why it is none. -/
inductive IsRow (trials : Int) (line : String) : Row → Prop where
  | result {t : Tree} (ht : IsReading line t) :
    IsRow trials line ⟨line, .ok (if 1 ≤ trials then some (t.eval K meaning) else none)⟩
  | error {e : CompileError} (hnone : ¬∃ t, IsReading line t)
    (he : Expression.ofText K (s.fold none) line = .error e) :
    IsRow trials line ⟨line, .error (.compile e)⟩

end

section

variable {K : Kernels} {s : Settings} {o : Options} {line : String}

theorem given_bindings : Expression.given bindings = meaning := by
  funext name
  unfold Expression.given meaning
  by_cases ha : name = "a"
  · subst ha; rfl
  by_cases hb : name = "b"
  · subst hb; rfl
  by_cases hc : name = "c"
  · subst hc; rfl
  by_cases hd : name = "d"
  · subst hd; rfl
  have hnone : bindings.reverse.lookup name = none :=
    lookup_eq_none_of_not_mem (by simp [bindings, ha, hb, hc, hd])
  rw [hnone, if_neg ha, if_neg hb, if_neg hc, if_neg hd]
  rfl

/-- A faithful cache prepares what the line compiles to, and stays faithful. -/
theorem prepare_eq {cache : CompileCache} (h : cache.Faithful K) (s : Settings) (line : String) :
    ∃ cache', cache'.Faithful K ∧ prepare cache K s line
      = (cache', (Expression.ofText K (s.fold none) line).map fun e => e.setAll bindings) := by
  obtain ⟨hfaithful, hbuilt⟩ := h.construct line (s.fold none)
  refine ⟨_, hfaithful, ?_⟩
  rw [← hbuilt]
  rfl

/-- The row of a line that compiles. -/
theorem rowOf_of_ok {cache cache' : CompileCache} {e : Expression}
    (h : prepare cache K s line = (cache', .ok e)) : rowOf cache K s o line
      = (Statistic.count o.trials).map fun _ => (cache', ⟨line, sampled e K o⟩) := by
  rw [rowOf, h]

/-- The row of a line that does not. -/
theorem rowOf_of_error {cache cache' : CompileCache} {e : CompileError}
    (h : prepare cache K s line = (cache', .error e)) :
    rowOf cache K s o line = .ok (cache', ⟨line, .error (.compile e)⟩) := by
  rw [rowOf, h]

/-- A line that compiles has a row of its own if its trials are a count. -/
theorem rowAlone_of_ok {e : Expression} (he : Expression.ofText K (s.fold none) line = .ok e) :
    rowAlone K s o line = (Statistic.count o.trials).map fun _ =>
      ⟨line, sampled (e.setAll bindings) K o⟩ := by
  obtain ⟨cache, -, hprepare⟩ :=
    prepare_eq (CompileCache.faithful_empty K s.cacheCapacity) s line
  rw [he] at hprepare
  rw [rowAlone, rowOf_of_ok hprepare]
  exact Functor.map_map (f := Except Statistic.RateError) _ _ _

/-- A line that does not compile has its error, and nothing is counted. -/
theorem rowAlone_of_error {e : CompileError}
    (he : Expression.ofText K (s.fold none) line = .error e) :
    rowAlone K s o line = .ok ⟨line, .error (.compile e)⟩ := by
  obtain ⟨cache, -, hprepare⟩ :=
    prepare_eq (CompileCache.faithful_empty K s.cacheCapacity) s line
  rw [he] at hprepare
  rw [rowAlone, rowOf_of_error hprepare]
  rfl

/-- There is at least one sample, and all samples have the same result. -/
theorem sampled_eq (e : Expression) (K : Kernels) (o : Options) :
    sampled e K o = result (e.lastResult K o.trials.toNat) := by
  have hsame : ∀ (sample : Except LineError (Option Double)) (n : Nat),
      (List.replicate (n + 1) ()).foldl (fun _ _ => sample) (.ok none) = sample := by
    intro sample n
    rw [List.replicate_succ', List.foldl_append]
    rfl
  obtain ⟨n, hn⟩ : ∃ n, (max 1 o.samples).toNat = n + 1 := ⟨(max 1 o.samples).toNat - 1, by omega⟩
  rw [sampled, hn]
  exact hsame _ n

/-- **A formula has its value as the result**, however often it is evaluated. -/
theorem rowAlone_of_isReading {t : Tree} (ht : IsReading line t) :
    rowAlone K s o line = (Statistic.count o.trials).map fun _ =>
      ⟨line, .ok (if 1 ≤ o.trials then some (t.eval K meaning) else none)⟩ := by
  obtain ⟨e, he, heval⟩ := Expression.eval_setAll_of_isReading K (s.fold none) ht
  have hcompiled := (Expression.Compiled.ofText he).setAll bindings
  have hsampled : sampled (e.setAll bindings) K o
      = .ok (if 1 ≤ o.trials then some (t.eval K meaning) else none) := by
    rw [sampled_eq, hcompiled.lastResult_eq, heval, given_bindings]
    by_cases htrials : 1 ≤ o.trials
    · rw [if_neg (by omega), if_pos htrials]
      rfl
    · rw [if_pos (by omega), if_neg htrials]
      rfl
  rw [rowAlone_of_ok he, hsampled]

/-- A line compiles or does not. -/
theorem exists_isReading_or_error (K : Kernels) (s : Settings) (line : String) :
    (∃ t, IsReading line t) ∨ (¬∃ t, IsReading line t) ∧
      ∃ e, Expression.ofText K (s.fold none) line = .error e := by
  by_cases h : ∃ t, IsReading line t
  · exact .inl h
  · refine .inr ⟨h, ?_⟩
    cases he : Expression.ofText K (s.fold none) line with
    | ok e => exact absurd ((Expression.exists_tree_of_ofText he).imp fun _ => And.left) h
    | error e => exact ⟨e, rfl⟩

/-- **A line on its own has one row**, unless it compiles and its trials are too many. -/
theorem exists_rowAlone (K : Kernels) (s : Settings) {o : Options} {line : String}
    (h : IsCount o.trials ∨ ¬∃ t, IsReading line t) :
    ∃ row, rowAlone K s o line = .ok row ∧ IsRow K s o.trials line row := by
  rcases exists_isReading_or_error K s line with ⟨t, ht⟩ | ⟨hnone, e, he⟩
  · obtain ⟨x, hx⟩ := count_of_isCount (h.resolve_right fun hnone => hnone ⟨t, ht⟩)
    exact ⟨_, by rw [rowAlone_of_isReading ht, hx]; rfl, .result ht⟩
  · exact ⟨_, rowAlone_of_error he, .error hnone he⟩

/-! ## Lines one after the other -/

/-- The row of a line does not depend on what a faithful cache holds. -/
theorem rowOf_eq {cache : CompileCache} (h : cache.Faithful K) (s : Settings) (o : Options)
    (line : String) : ∃ cache', cache'.Faithful K ∧
      rowOf cache K s o line = (rowAlone K s o line).map fun row => (cache', row) := by
  obtain ⟨cache', hfaithful, hprepare⟩ := prepare_eq h s line
  refine ⟨cache', hfaithful, ?_⟩
  cases he : Expression.ofText K (s.fold none) line with
  | error e =>
    rw [he] at hprepare
    rw [rowOf_of_error hprepare, rowAlone_of_error he]
    rfl
  | ok e =>
    rw [he] at hprepare
    rw [rowOf_of_ok hprepare, rowAlone_of_ok he]
    exact (Functor.map_map (f := Except Statistic.RateError) _ _ _).symm

/-- **Lines have the rows that they have on their own**, whatever was compiled before. -/
theorem rowsFrom_eq_ok_iff {cache : CompileCache} (h : cache.Faithful K) (lines : List String)
    (rs : List Row) : rowsFrom K s o cache lines = .ok rs ↔
      List.Forall₂ (fun line row => rowAlone K s o line = .ok row) lines rs := by
  induction lines generalizing cache rs with
  | nil => cases rs <;> simp [rowsFrom]
  | cons line rest ih =>
    obtain ⟨cache', hfaithful, hrow⟩ := rowOf_eq h s o line
    rw [rowsFrom, hrow]
    cases halone : rowAlone K s o line with
    | error e =>
      refine ⟨nofun, fun hrows => ?_⟩
      cases hrows with
      | cons hrow _ => cases halone.symm.trans hrow
    | ok row =>
      show (rowsFrom K s o cache' rest).map (row :: ·) = .ok rs ↔ _
      constructor
      · intro hrows
        cases hrest : rowsFrom K s o cache' rest with
        | error e => rw [hrest] at hrows; cases hrows
        | ok rest' =>
          rw [hrest] at hrows
          cases hrows
          exact .cons halone ((ih hfaithful rest').mp hrest)
      · intro hrows
        cases hrows with
        | cons hrow hrest =>
          rw [(ih hfaithful _).mpr hrest, Except.ok.inj (halone.symm.trans hrow)]
          rfl

/-- **A report has the rows of its lines.** -/
theorem rows_eq_ok_iff (text : String) (rs : List Row) : rows K s o text = .ok rs ↔
    List.Forall₂ (fun line row => rowAlone K s o line = .ok row) (formulas text) rs :=
  rowsFrom_eq_ok_iff (CompileCache.faithful_empty K s.cacheCapacity) _ rs

/-- Where each element of a list has a partner, the list has a list of partners. -/
theorem exists_forall₂_iff {α β : Type} {R : α → β → Prop} {xs : List α} :
    (∃ ys, List.Forall₂ R xs ys) ↔ ∀ x ∈ xs, ∃ y, R x y := by
  induction xs with
  | nil => exact ⟨fun _ _ h => absurd h List.not_mem_nil, fun _ => ⟨[], .nil⟩⟩
  | cons x xs ih =>
    rw [List.forall_mem_cons, ← ih]
    constructor
    · rintro ⟨_, _ | ⟨hxy, hrest⟩⟩
      exact ⟨⟨_, hxy⟩, _, hrest⟩
    · rintro ⟨⟨y, hxy⟩, ys, hrest⟩
      exact ⟨y :: ys, .cons hxy hrest⟩

/-- **There is no report exactly if some line compiles and the trials are too many.** -/
theorem rows_eq_error_iff (text : String) : rows K s o text = .error .tooLarge ↔
    ¬IsCount o.trials ∧ ∃ line ∈ formulas text, ∃ t, IsReading line t := by
  have hrows := rows_eq_ok_iff (K := K) (s := s) (o := o) text
  constructor
  · intro herror
    by_contra hnone
    have halone : ∀ line ∈ formulas text, ∃ row, rowAlone K s o line = .ok row := by
      intro line hline
      have h : IsCount o.trials ∨ ¬∃ t, IsReading line t := by
        by_contra h
        obtain ⟨htrials, hreading⟩ := not_or.mp h
        exact hnone ⟨htrials, line, hline, not_not.mp hreading⟩
      obtain ⟨row, hrow, -⟩ := exists_rowAlone K s h
      exact ⟨row, hrow⟩
    obtain ⟨rs, hrs⟩ := exists_forall₂_iff.mpr halone
    cases herror.symm.trans ((hrows rs).mpr hrs)
  · rintro ⟨htrials, line, hline, t, ht⟩
    have halone : rowAlone K s o line = .error .tooLarge := by
      rw [rowAlone_of_isReading ht, count_of_not_isCount htrials]
      rfl
    cases h : rows K s o text with
    | error e => cases e; rfl
    | ok rs =>
      obtain ⟨row, hrow⟩ := exists_forall₂_iff.mp ⟨rs, (hrows rs).mp h⟩ line hline
      cases halone.symm.trans hrow

end

/-! ## Output -/

/-- Everything that is printed: for each row at once, and behind the rows. -/
def output (host : Host) (o : Options) (rows : List TimedRow) : List String :=
  rows.flatMap (TimedRow.printed o) ++ closing host o rows

/-- How a row is printed: its result with a rate, or its error. -/
inductive PrintedAs : Row → List String → Prop where
  | result (line : String) (v : Double) (rate : String) :
    PrintedAs ⟨line, .ok (some v)⟩ [v.text, rate ++ " calculations per second"]
  | missing (line rate : String) :
    PrintedAs ⟨line, .ok none⟩ ["None", rate ++ " calculations per second"]
  | error (line : String) (e : LineError) : PrintedAs ⟨line, .error e⟩ [e.message]

/-- How a row is written as data: its line, and its result with a rate, or its error. -/
inductive EncodedAs : Row → List (String × String) → Prop where
  | result (line : String) (v : Double) (rate : String) :
    EncodedAs ⟨line, .ok (some v)⟩
      [("source", textData line), ("result", numberData v), ("calls_per_second", rate)]
  | missing (line rate : String) :
    EncodedAs ⟨line, .ok none⟩
      [("source", textData line), ("result", "null"), ("calls_per_second", rate)]
  | error (line : String) (e : LineError) :
    EncodedAs ⟨line, .error e⟩ [("source", textData line), ("error", textData e.message)]

theorem printedAs_lines (row : Row) (rate : String) : PrintedAs row (row.lines rate) := by
  obtain ⟨line, (e | (_ | v))⟩ := row
  · exact .error line e
  · exact .missing line rate
  · exact .result line v rate

theorem encodedAs_fields (row : Row) (rate : String) : EncodedAs row (row.fields rate) := by
  obtain ⟨line, (e | (_ | v))⟩ := row
  · exact .error line e
  · exact .missing line rate
  · exact .result line v rate

/-- As text, the rows are printed one after the other. -/
theorem output_text (host : Host) {o : Options} (h : o.asData = false) (timed : List TimedRow) :
    ∃ parts, output host o timed = parts.flatten ∧
      List.Forall₂ PrintedAs (timed.map TimedRow.row) parts := by
  refine ⟨timed.map TimedRow.lines, ?_, ?_⟩
  · have hprinted : TimedRow.printed o = TimedRow.lines := by
      funext t
      simp [TimedRow.printed, h]
    rw [output, closing, h, hprinted, List.flatMap_def]
    exact List.append_nil _
  · rw [List.forall₂_map_left_iff, List.forall₂_map_right_iff, List.forall₂_same]
    exact fun t _ => printedAs_lines t.row _

/-- As data, what is known of the host comes first, and the rows are the entries of one list. -/
theorem output_data (host : Host) {o : Options} (h : o.asData = true) (timed : List TimedRow) :
    ∃ parts, output host o timed
        = [objectData "" [("host", objectData "  " host.fields),
            ("rows", block "  " "[" "]" (parts.map (objectData "    ")))]] ∧
      List.Forall₂ EncodedAs (timed.map TimedRow.row) parts := by
  refine ⟨timed.map TimedRow.fields, ?_, ?_⟩
  · have hprinted : timed.flatMap (TimedRow.printed o) = [] :=
      List.flatMap_eq_nil_iff.mpr fun t _ => if_pos h
    rw [output, closing, h, hprinted, List.map_map]
    rfl
  · rw [List.forall₂_map_left_iff, List.forall₂_map_right_iff, List.forall₂_same]
    exact fun t _ => encodedAs_fields t.row _

theorem isError_iff {row : Row} : row.isError = true ↔ ∃ e, row.outcome = .error e := by
  unfold Row.isError
  cases row.outcome <;> simp

/-- The exit code tells whether some row is an error. -/
theorem exitCode_eq_one_iff (rs : List Row) :
    exitCode rs = 1 ↔ ∃ row ∈ rs, ∃ e, row.outcome = .error e := by
  have hany : rs.any Row.isError = true ↔ ∃ row ∈ rs, ∃ e, row.outcome = .error e := by
    simp only [List.any_eq_true, isError_iff]
  rw [← hany, exitCode]
  split
  · next h => exact ⟨fun _ => h, fun _ => rfl⟩
  · next h => exact ⟨nofun, fun h' => absurd h' h⟩

/--
**A report is made line by line**, and stops at the first empty one.

The trials have to be a number that a double can hold, unless no line compiles. Then each line has
one row, in order, and it is the row that the line has on its own. The row has the value of the
formula as its result, or none if there are no trials; how many there are makes no difference, nor
how many samples. What is printed is made from these rows one by one, as text or as data, whatever
rates were measured and whatever is known of the host. The exit code is 1 if a row is an error, and
else 0.
-/
theorem rows_line_by_line (K : Kernels) (s : Settings) (o : Options) (text : String)
    (h : IsCount o.trials ∨ ∀ line ∈ formulas text, ¬∃ t, IsReading line t) :
    (∀ lines, BeforeEmpty text lines ↔ lines = formulas text) ∧
    ∃ rs, (∀ asData, rows K s { o with asData } text = .ok rs) ∧
      List.Forall₂ (fun line row => rowAlone K s o line = .ok row ∧ IsRow K s o.trials line row)
        (formulas text) rs ∧
      (∀ (host : Host) (timed : List TimedRow), timed.map TimedRow.row = rs →
        (∃ parts, output host { o with asData := false } timed = parts.flatten ∧
          List.Forall₂ PrintedAs rs parts) ∧
        ∃ parts, output host { o with asData := true } timed
            = [objectData "" [("host", objectData "  " host.fields),
                ("rows", block "  " "[" "]" (parts.map (objectData "    ")))]] ∧
          List.Forall₂ EncodedAs rs parts) ∧
      (exitCode rs = 1 ↔ ∃ row ∈ rs, ∃ e, row.outcome = .error e) ∧ exitCode rs ≤ 1 := by
  have halone : ∀ line ∈ formulas text,
      ∃ row, rowAlone K s o line = .ok row ∧ IsRow K s o.trials line row :=
    fun line hline => exists_rowAlone K s (h.imp_right fun hnone => hnone line hline)
  obtain ⟨rs, hrs⟩ := exists_forall₂_iff.mpr halone
  refine ⟨fun lines => beforeEmpty_iff, rs, fun asData => ?_, hrs, ?_, exitCode_eq_one_iff rs, ?_⟩
  · exact (rows_eq_ok_iff text rs).mpr (hrs.imp fun _ _ => And.left)
  · rintro host timed rfl
    exact ⟨output_text host rfl timed, output_data host rfl timed⟩
  · unfold exitCode
    split <;> decide

/-- The first empty line ends the report, and an error does not. -/
theorem rows_line_by_line_error_then_empty :
    (IsCount 5 ∨ ∀ line ∈ formulas "a+b*c\n1+\n\nd\n", ¬∃ t, IsReading line t) ∧
      BeforeEmpty "a+b*c\n1+\n\nd\n" ["a+b*c", "1+"] ∧
      ∃ rs, rows .standard .default ⟨5, 1, false⟩ "a+b*c\n1+\n\nd\n" = .ok rs ∧
        List.Forall₂ (fun line row => rowAlone .standard .default ⟨5, 1, false⟩ line = .ok row ∧
          IsRow .standard .default 5 line row) ["a+b*c", "1+"] rs := by
  have hcount : IsCount 5 := by
    unfold IsCount
    decide +kernel
  have hlines : ["a+b*c", "1+"] = formulas "a+b*c\n1+\n\nd\n" := by decide +kernel
  obtain ⟨hbefore, rs, hrows, hrs, -⟩ :=
    rows_line_by_line .standard .default ⟨5, 1, false⟩ _ (.inl hcount)
  rw [← hlines] at hrs
  exact ⟨.inl hcount, (hbefore _).mpr hlines, rs, hrows false, hrs⟩

/-- A line that compiles, and trials that no double can hold: there is no row. -/
theorem rows_without_count :
    BeforeEmpty "a+b\n" ["a+b"] ∧ (∃ t, IsReading "a+b" t) ∧
      ¬∃ rs, rows .standard .default ⟨-10 ^ 309, 1, false⟩ "a+b\n" = .ok rs := by
  have hlines : ["a+b"] = formulas "a+b\n" := by decide +kernel
  have hreading : ∃ t, IsReading "a+b" t := by
    refine (compile_succeeds_iff ⟨.standard, false⟩ "a+b" .empty).1.mp ?_
    exact ⟨[.load 0 "a", .load 1 "b", .apply (.binary .add)], by decide +kernel⟩
  have hcount : ¬IsCount (-10 ^ 309) := by
    unfold IsCount
    decide +kernel
  refine ⟨beforeEmpty_iff.mpr hlines, hreading, ?_⟩
  rintro ⟨rs, hrs⟩
  have herror := (rows_eq_error_iff (K := .standard) (s := .default) (o := ⟨-10 ^ 309, 1, false⟩)
    "a+b\n").mpr ⟨hcount, "a+b", hlines ▸ List.mem_singleton_self _, hreading⟩
  cases hrs.symm.trans herror

end Report

end Formula
