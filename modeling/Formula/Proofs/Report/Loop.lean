import Formula.Proofs.Double.Fraction
import Formula.Proofs.Report.Rows
import Formula.Report.Loop

/-!
# The loop makes the rows

What a report prints while time passes is what its rows say. The surroundings here record what is
printed, and their clock shows any times at all, as long as it moves on. Then the loop ends with
the rows of the text, and it has printed the output made from them. If there is no rate for a line,
then the rows of the lines before it were printed, and nothing else (`run_report`).

The steps follow the loop: a sample, the samples of a line, a line, the lines. Only the rates depend
on the clock, and they are no part of a row.
-/

namespace Formula.Report

/-! ## Rates -/

/-- In some time something happens a number of times a second if the count is one. -/
theorem sampleRate_of_ok {o : Options} {x : Double} (h : Statistic.count o.trials = .ok x)
    (nanoseconds : Nat) : ∃ rate, sampleRate o nanoseconds = .ok rate := by
  unfold sampleRate Statistic.perSecond
  rw [h]
  split
  · exact ⟨_, rfl⟩
  · exact ⟨_, rfl⟩

theorem num_le_zero {m : Magnitude} (h : 0 < m.units) : (Double.num false m).le .zero = false := by
  refine decide_eq_false fun hle => ?_
  have hplace : m.place ≤ Magnitude.zero.place := Int.ofNat_le.mp hle
  have hunits := Magnitude.units_le_units_iff.mpr hplace
  rw [Magnitude.units_zero] at hunits
  omega

/-- A nanosecond is more than nothing, in seconds too. -/
theorem seconds_le_zero {nanoseconds : Nat} (h : 0 < nanoseconds) :
    (seconds nanoseconds).le .zero = false := by
  obtain ⟨m, hm⟩ : ∃ m, Magnitude.ofNat nanoseconds = m := ⟨_, rfl⟩
  obtain ⟨n, hn⟩ : ∃ n, Magnitude.ofNat 1000000000 = n := ⟨_, rfl⟩
  have hmunits : Magnitude.unitsPerOne ≤ m.units := by
    have hone : (Magnitude.ofNat 1).units * 1 ≤ nanoseconds * Magnitude.unitsPerOne := by
      rw [Magnitude.units_ofNat_one, Nat.mul_one]
      exact Nat.le_mul_of_pos_left _ h
    have hle := Magnitude.units_le_ofRatio Nat.one_pos hone
    rw [Magnitude.units_ofNat_one] at hle
    rwa [← hm]
  have hntop : n ≠ .top := hn ▸ Magnitude.ofNat_ne_top (by decide)
  have hnzero : n ≠ .zero := hn ▸ Magnitude.ofNat_ne_zero (by decide)
  have hnunits : n.units = 1000000000 * Magnitude.unitsPerOne := by
    rw [← hn, Magnitude.units_ofNat (by decide)]
  have hseconds : seconds nanoseconds = (Double.num false m).div (.num false n) := by
    rw [← hm, ← hn]
    rfl
  rw [hseconds, Double.div]
  by_cases hmtop : m = .top
  · rw [if_pos hmtop, if_neg hntop]
    exact num_le_zero (by rw [← hmtop]; exact Magnitude.unitsPerOne_pos.trans_le hmunits)
  · rw [if_neg hmtop, if_neg hntop, if_neg hnzero]
    -- the least magnitude above zero is not above the quotient
    have hleast : (⟨1, by decide⟩ : Magnitude).units * n.units
        ≤ m.units * Magnitude.unitsPerOne := by
      rw [show (⟨1, by decide⟩ : Magnitude).units = 1 by decide, hnunits, Nat.one_mul]
      refine Nat.mul_le_mul_right _ (le_trans ?_ hmunits)
      decide +kernel
    have hle := Magnitude.units_le_ofRatio
      (hnunits ▸ Nat.mul_pos (by decide) Magnitude.unitsPerOne_pos) hleast
    exact num_le_zero (lt_of_lt_of_le (by decide) hle)

/-- In some time nothing has a rate if its count is none. -/
theorem sampleRate_of_error {o : Options} {e : Statistic.RateError} {nanoseconds : Nat}
    (h : Statistic.count o.trials = .error e) (htime : 0 < nanoseconds) :
    sampleRate o nanoseconds = .error e := by
  rw [sampleRate, Statistic.perSecond, seconds_le_zero htime, h]
  rfl

/-! ## Surroundings that record -/

/-- How many samples were taken, and what was printed. -/
structure Record where
  samples : Nat
  printed : List String

/-- The clock shows how long each sample takes. -/
def recorder (clock : Nat → Nat) : Surroundings (StateM Record) where
  timed delayed := fun r => ((delayed (), clock r.samples), { r with samples := r.samples + 1 })
  print l := fun r => ((), { r with printed := r.printed ++ [l] })

/-- A part of a report, from a record on. -/
def run {α : Type} (part : ExceptT Statistic.RateError (StateM Record) α) (r : Record) :
    Except Statistic.RateError α × Record :=
  part.run r

section

variable {α β : Type} {part : ExceptT Statistic.RateError (StateM Record) α}
  {rest : α → ExceptT Statistic.RateError (StateM Record) β} {r r' : Record}

theorem run_mk (a : Except Statistic.RateError α) (r : Record) :
    run (ExceptT.mk (pure a)) r = (a, r) := rfl

theorem run_bind_of_ok {a : α} (h : run part r = (.ok a, r')) :
    run (part >>= rest) r = run (rest a) r' := by
  show (ExceptT.bindCont rest (part.run r).1) (part.run r).2 = _
  rw [show part.run r = _ from h]
  rfl

theorem run_bind_of_error {e : Statistic.RateError} (h : run part r = (.error e, r')) :
    run (part >>= rest) r = (.error e, r') := by
  show (ExceptT.bindCont rest (part.run r).1) (part.run r).2 = _
  rw [show part.run r = _ from h]
  rfl

end

/-! ## Samples -/

section

variable {K : Kernels} {s : Settings} {o : Options}

theorem run_sample (K : Kernels) (o : Options) (clock : Nat → Nat) (e : Expression) (r : Record) :
    run ((recorder clock).sample K o e) r = ((sampleRate o (clock r.samples)).map fun rate =>
        (result (e.lastResult K o.trials.toNat), rate), { r with samples := r.samples + 1 }) := by
  have htimed : run ((recorder clock).timed fun _ => result (e.evalTimes K o.trials.toNat)) r
      = (.ok (result (e.lastResult K o.trials.toNat), clock r.samples),
        { r with samples := r.samples + 1 }) := by
    rw [← e.evalTimes_eq_lastResult]
    rfl
  rw [Surroundings.sample, run_bind_of_ok htimed]
  dsimp only
  cases hrate : sampleRate o (clock r.samples) with
  | ok rate => exact run_bind_of_ok (run_mk (.ok rate) _)
  | error e => exact run_bind_of_error (run_mk (.error e) _)

/-- **Samples have one result**, and print nothing. -/
theorem run_samples_of_ok {x : Double} (h : Statistic.count o.trials = .ok x) (K : Kernels)
    (clock : Nat → Nat) (e : Expression) (n : Nat) (r : Record) :
    ∃ taken r', run ((recorder clock).samples K o e n) r = (.ok taken, r') ∧
      taken.map Prod.fst = List.replicate n (result (e.lastResult K o.trials.toNat)) ∧
      r'.printed = r.printed := by
  induction n generalizing r with
  | zero => exact ⟨[], r, rfl, rfl, rfl⟩
  | succ n ih =>
    obtain ⟨rate, hrate⟩ := sampleRate_of_ok h (clock r.samples)
    have hfirst := run_sample K o clock e r
    rw [hrate] at hfirst
    obtain ⟨taken, r', hrest, htaken, hprinted⟩ := ih { r with samples := r.samples + 1 }
    refine ⟨(result (e.lastResult K o.trials.toNat), rate) :: taken, r', ?_, ?_, hprinted⟩
    · rw [Surroundings.samples, run_bind_of_ok hfirst, run_bind_of_ok hrest]
      rfl
    · rw [List.map_cons, htaken, List.replicate_succ]

/-- The first sample shows that there is no rate. -/
theorem run_samples_of_error {error : Statistic.RateError}
    (h : Statistic.count o.trials = .error error) {clock : Nat → Nat} (hclock : ∀ n, 0 < clock n)
    (K : Kernels) (e : Expression) (n : Nat) (r : Record) :
    ∃ r', run ((recorder clock).samples K o e (n + 1)) r = (.error error, r') ∧
      r'.printed = r.printed := by
  have hfirst := run_sample K o clock e r
  rw [sampleRate_of_error h (hclock r.samples)] at hfirst
  exact ⟨_, run_bind_of_error hfirst, rfl⟩

/-! ## Lines -/

theorem exists_samples_succ (o : Options) : ∃ n, (max 1 o.samples).toNat = n + 1 :=
  ⟨(max 1 o.samples).toNat - 1, by omega⟩

/-- **The row of a line is made with some rate**, and nothing is printed meanwhile. -/
theorem run_row_of_ok {cache cache' : CompileCache} {line : String} {row : Row}
    (h : rowOf cache K s o line = .ok (cache', row)) (clock : Nat → Nat) (r : Record) :
    ∃ rate r', run ((recorder clock).row K s o cache line) r = (.ok (cache', ⟨row, rate⟩), r') ∧
      r'.printed = r.printed := by
  unfold Surroundings.row
  rcases hprepare : prepare cache K s line with ⟨kept, e | e⟩
  · rw [rowOf_of_error hprepare] at h
    cases h
    exact ⟨.nan, r, rfl, rfl⟩
  · rw [rowOf_of_ok hprepare] at h
    cases hcount : Statistic.count o.trials with
    | error error => rw [hcount] at h; cases h
    | ok x =>
      rw [hcount] at h
      cases h
      obtain ⟨n, hn⟩ := exists_samples_succ o
      obtain ⟨taken, r', htaken, hresults, hprinted⟩ :=
        run_samples_of_ok hcount K clock e (n + 1) r
      have hlast : (taken.getLast?.map Prod.fst).getD (.ok none) = sampled e K o := by
        rw [← List.getLast?_map, hresults, sampled_eq, List.getLast?_replicate,
          if_neg (Nat.succ_ne_zero n)]
        rfl
      refine ⟨medianRate (taken.map Prod.snd), r', ?_, hprinted⟩
      rw [← hlast]
      dsimp only
      rw [hn]
      exact run_bind_of_ok htaken

/-- A line without a rate ends the report. -/
theorem run_row_of_error {cache : CompileCache} {line : String} {error : Statistic.RateError}
    {clock : Nat → Nat} (hclock : ∀ n, 0 < clock n)
    (h : rowOf cache K s o line = .error error) (r : Record) :
    ∃ r', run ((recorder clock).row K s o cache line) r = (.error error, r') ∧
      r'.printed = r.printed := by
  unfold Surroundings.row
  rcases hprepare : prepare cache K s line with ⟨kept, e | e⟩
  · rw [rowOf_of_error hprepare] at h
    cases h
  · rw [rowOf_of_ok hprepare] at h
    cases hcount : Statistic.count o.trials with
    | ok x => rw [hcount] at h; cases h
    | error error' =>
      rw [hcount] at h
      cases h
      obtain ⟨n, hn⟩ := exists_samples_succ o
      obtain ⟨r', hr', hprinted⟩ := run_samples_of_error hcount hclock K e n r
      refine ⟨r', ?_, hprinted⟩
      dsimp only
      rw [hn]
      exact run_bind_of_error hr'

theorem run_printAll (clock : Nat → Nat) (lines : List String) (r : Record) :
    run ((recorder clock).printAll lines) r
      = (.ok (), { r with printed := r.printed ++ lines }) := by
  induction lines generalizing r with
  | nil => rw [List.append_nil]; rfl
  | cons l rest ih =>
    have hline : run ((recorder clock).print l) r
        = (.ok (), { r with printed := r.printed ++ [l] }) := rfl
    rw [Surroundings.printAll, run_bind_of_ok hline, ih, List.append_assoc]
    rfl

/-- **The rows of lines are made and printed in order.** -/
theorem run_rowsFrom_of_ok {cache : CompileCache} {lines : List String} {rows : List Row}
    (h : rowsFrom K s o cache lines = .ok rows) (clock : Nat → Nat) (r : Record) :
    ∃ timed r', run ((recorder clock).rowsFrom K s o cache lines) r = (.ok timed, r') ∧
      timed.map TimedRow.row = rows ∧
      r'.printed = r.printed ++ timed.flatMap (TimedRow.printed o) := by
  induction lines generalizing cache rows r with
  | nil =>
    cases h
    exact ⟨[], r, rfl, rfl, (List.append_nil _).symm⟩
  | cons line rest ih =>
    rw [rowsFrom] at h
    cases hrow : rowOf cache K s o line with
    | error error => rw [hrow] at h; cases h
    | ok first =>
      obtain ⟨cache', row⟩ := first
      rw [hrow] at h
      cases hrest : rowsFrom K s o cache' rest with
      | error error => simp only [hrest] at h; cases h
      | ok others =>
        simp only [hrest] at h
        cases h
        obtain ⟨rate, r₁, hmade, hprinted₁⟩ := run_row_of_ok hrow clock r
        obtain ⟨timed, r₂, hmade₂, hrows, hprinted₂⟩ := ih hrest
          { r₁ with printed := r₁.printed ++ TimedRow.printed o ⟨row, rate⟩ }
        refine ⟨⟨row, rate⟩ :: timed, r₂, ?_, congrArg (row :: ·) hrows, ?_⟩
        · rw [Surroundings.rowsFrom, run_bind_of_ok hmade]
          dsimp only
          rw [run_bind_of_ok (run_printAll clock _ r₁), run_bind_of_ok hmade₂]
          rfl
        · rw [hprinted₂, hprinted₁, List.flatMap_cons, List.append_assoc]

/-- **Where there is no rate, the rows before were printed**, and nothing else. -/
theorem run_rowsFrom_of_error {cache : CompileCache} {lines : List String}
    {error : Statistic.RateError} {clock : Nat → Nat} (hclock : ∀ n, 0 < clock n)
    (h : rowsFrom K s o cache lines = .error error) (r : Record) :
    ∃ r' before, ∃ timed : List TimedRow,
      run ((recorder clock).rowsFrom K s o cache lines) r = (.error error, r') ∧
      before <+: lines ∧ rowsFrom K s o cache before = .ok (timed.map TimedRow.row) ∧
      r'.printed = r.printed ++ timed.flatMap (TimedRow.printed o) := by
  induction lines generalizing cache r with
  | nil => cases h
  | cons line rest ih =>
    rw [rowsFrom] at h
    cases hrow : rowOf cache K s o line with
    | error error' =>
      rw [hrow] at h
      cases h
      obtain ⟨r', hmade, hprinted⟩ := run_row_of_error hclock hrow r
      refine ⟨r', [], [], ?_, List.nil_prefix, rfl, hprinted.trans (List.append_nil _).symm⟩
      rw [Surroundings.rowsFrom, run_bind_of_error hmade]
    | ok first =>
      obtain ⟨cache', row⟩ := first
      rw [hrow] at h
      cases hrest : rowsFrom K s o cache' rest with
      | ok others => simp only [hrest] at h; cases h
      | error error' =>
        simp only [hrest] at h
        cases h
        obtain ⟨rate, r₁, hmade, hprinted₁⟩ := run_row_of_ok hrow clock r
        obtain ⟨r₂, before, timed, hmade₂, hbefore, hrows, hprinted₂⟩ := ih hrest
          { r₁ with printed := r₁.printed ++ TimedRow.printed o ⟨row, rate⟩ }
        refine ⟨r₂, line :: before, ⟨row, rate⟩ :: timed, ?_,
          List.cons_prefix_cons.mpr ⟨rfl, hbefore⟩, ?_, ?_⟩
        · rw [Surroundings.rowsFrom, run_bind_of_ok hmade]
          dsimp only
          rw [run_bind_of_ok (run_printAll clock _ r₁), run_bind_of_error hmade₂]
        · rw [rowsFrom, hrow]
          dsimp only
          rw [hrows]
          rfl
        · rw [hprinted₂, hprinted₁, List.flatMap_cons, List.append_assoc]

/--
**The loop makes the rows of the text and prints the output made from them.**

The clock may show any times, as long as it moves on. If there are no rows, then the output of the
lines before the first one without a rate was printed.
-/
theorem run_report (K : Kernels) (s : Settings) (o : Options) (host : Host) (text : String)
    {clock : Nat → Nat} (hclock : ∀ n, 0 < clock n) :
    (∀ rs, rows K s o text = .ok rs → ∃ timed r,
      run ((recorder clock).report K s o host text) ⟨0, []⟩ = (.ok timed, r) ∧
        timed.map TimedRow.row = rs ∧ r.printed = output host o timed) ∧
    (∀ error, rows K s o text = .error error → ∃ r before, ∃ timed : List TimedRow,
      run ((recorder clock).report K s o host text) ⟨0, []⟩ = (.error error, r) ∧
        before <+: formulas text ∧
        rowsFrom K s o (.empty s.cacheCapacity) before = .ok (timed.map TimedRow.row) ∧
        r.printed = timed.flatMap (TimedRow.printed o)) := by
  constructor
  · intro rs hrs
    obtain ⟨timed, r, hmade, hrows, hprinted⟩ := run_rowsFrom_of_ok hrs clock ⟨0, []⟩
    refine ⟨timed, { r with printed := r.printed ++ closing host o timed }, ?_, hrows, ?_⟩
    · rw [Surroundings.report, run_bind_of_ok hmade, run_bind_of_ok (run_printAll clock _ r)]
      rfl
    · rw [output, hprinted]
      rfl
  · intro error herror
    obtain ⟨r, before, timed, hmade, hbefore, hrows, hprinted⟩ :=
      run_rowsFrom_of_error hclock herror ⟨0, []⟩
    exact ⟨r, before, timed, run_bind_of_error hmade, hbefore, hrows, hprinted⟩

end

end Formula.Report
