import Formula.Proofs.Double.Layout
import Formula.Proofs.Expression.Compiled
import Formula.Proofs.Table.Values
import Formula.Report.Rows

/-!
# Results read back

The text of a result is itself a formula, and its value is the result (`eval_ofText_resultText`). A
finite number is a literal, with a sign before it if it is negative. The infinities and NaN are
names: `inf` is a constant, and `nan` is an unknown name, which is NaN.
-/

namespace Formula

/-! ## The value of a new expression -/

/-- **A formula whose variables are not set has the value of its tree** with the constants. -/
theorem Expression.eval_ofText_of_isReading (K : Kernels) (fold : Bool) {text : String} {t : Tree}
    (h : IsReading text t) :
    ∃ e, Expression.ofText K fold text = .ok e ∧
      e.eval K = .ok (t.eval K Table.withConstants.valueOf) := by
  obtain ⟨e, he, heval⟩ := eval_setAll_of_isReading K fold h
  exact ⟨e, he, heval []⟩

/-! ## Formulas of one operand -/

/-- A word that names no function is a name. -/
theorem spelled_name {word : List Char} (hne : word ≠ []) (hword : word.all isLetter = true)
    (hfunction : NamedFunction.ofWord? (String.ofList word) = none) :
    Token.Spelled (.name (String.ofList word)) word :=
  .name hne (List.all_eq_true.mp hword) (NamedFunction.ofWord?_eq_none_iff.mp hfunction)

section

variable {t : Token} {word : List Char} {tree : Tree} (h : t.Spelled word)
  (ht : Phrase .atom [t] tree)

include h ht

theorem isReading_of_spelled : IsReading (String.ofList word) tree := by
  refine ⟨[t], ?_, .ofTerm (.ofPower (.ofPrefixed (.ofSuffixed (.ofAtom ht))))⟩
  rw [String.toList_ofList]
  exact splits_of_spelled h

theorem isReading_of_minus_spelled :
    IsReading (String.ofList (['-'] ++ word)) (.unary .minus tree) := by
  refine ⟨[.op (.unary .minus), t], ?_, .ofTerm (.ofPower (.ofPrefixed (.sign (by decide)
    (.ofSuffixed (.ofAtom ht)))))⟩
  rw [String.toList_ofList]
  show Splits ([] ++ ['-'] ++ word) _
  exact .cons nofun .minus nofun (splits_of_spelled h)

end

/-! ## Results -/

namespace Report

/-- What is written for a number without its sign is an operand, and its value is the number. -/
theorem exists_spelled (K : Kernels) (m : Magnitude) :
    ∃ t tree, Token.Spelled t ((Double.num false m).textWith Double.resultLayout) ∧
      Phrase .atom [t] tree ∧ tree.eval K Table.withConstants.valueOf = .num false m := by
  by_cases hm : m = .top
  · refine ⟨.name (String.ofList ['i', 'n', 'f']), _, ?_, .name _, ?_⟩
    · rw [hm]
      exact spelled_name (by decide) (by decide) (by decide)
    · rw [hm]
      show Table.withConstants.valueOf (String.ofList ['i', 'n', 'f']) = .infinity
      decide
  · obtain ⟨l, hl, hvalue, hspelling⟩ :=
      Double.exists_literal (l := Double.resultLayout) (by decide) hm
    refine ⟨.number l.value, _, ?_, .number _, hvalue⟩
    rw [← hspelling]
    exact .number hl (by rw [hvalue]; exact decide_eq_false hm)

/-- The text of a result is a formula whose value is the result. -/
theorem exists_isReading_resultText (K : Kernels) (x : Double) :
    ∃ t, IsReading (resultText (some x)) t ∧ t.eval K Table.withConstants.valueOf = x := by
  cases x with
  | nan =>
    refine ⟨.name (String.ofList ['n', 'a', 'n']), ?_, ?_⟩
    · exact isReading_of_spelled (spelled_name (by decide) (by decide) (by decide)) (.name _)
    · show Table.withConstants.valueOf (String.ofList ['n', 'a', 'n']) = .nan
      decide
  | num neg m =>
    obtain ⟨t, tree, hspelled, htree, hvalue⟩ := exists_spelled K m
    cases neg with
    | false => exact ⟨tree, isReading_of_spelled hspelled htree, hvalue⟩
    | true =>
      refine ⟨.unary .minus tree, isReading_of_minus_spelled hspelled htree, ?_⟩
      rw [Tree.eval, hvalue]
      rfl

/--
**Results read back.**

The text that is written for a result is a formula, with folding and without, and the formula has
this result. If the result is finite and its sign bit is clear, the text is one literal with its
value.
-/
theorem eval_ofText_resultText (K : Kernels) (fold : Bool) (x : Double) :
    (∃ e, Expression.ofText K fold (resultText (some x)) = .ok e ∧ e.eval K = .ok x) ∧
      (x.isFinite = true → x.toBits < 2 ^ 63 →
        (Cursor.ofText (resultText (some x)) 0).readNumber
          = .ok (x, ⟨(resultText (some x)).length, []⟩)) := by
  refine ⟨?_, ?_⟩
  · obtain ⟨t, ht, hvalue⟩ := exists_isReading_resultText K x
    obtain ⟨e, he, heval⟩ := Expression.eval_ofText_of_isReading K fold ht
    exact ⟨e, he, by rw [heval, hvalue]⟩
  · intro hfinite hsign
    cases x with
    | nan => cases hfinite
    | num neg m =>
      obtain rfl : neg = false := by
        cases neg with
        | false => rfl
        | true =>
          simp only [Double.toBits, if_true] at hsign
          omega
      have hm : m ≠ .top := by simpa [Double.isFinite] using hfinite
      obtain ⟨l, hl, hvalue, hspelling⟩ :=
        Double.exists_literal (l := Double.resultLayout) (by decide) hm
      have htext : (resultText (some (.num false m))).toList = l.spelling := by
        rw [hspelling]
        exact String.toList_ofList
      have hstops : l.Stops [] := fun c hc => by cases hc
      have hinfinite : l.value.isInfinite = false := by rw [hvalue]; exact decide_eq_false hm
      have hread := Cursor.readNumber_spelling hl hinfinite 0 hstops
      rw [Nat.zero_add, List.append_nil, hvalue] at hread
      rw [← String.length_toList, htext, ← hread, ← htext]
      rfl

/-- The least positive double, which is written with one digit. -/
theorem eval_ofText_resultText_least :
    resultText (some (.ofBits 1)) = "5e-324" ∧ (Double.ofBits 1).isFinite = true ∧
      (Double.ofBits 1).toBits < 2 ^ 63 ∧
      (∃ e, Expression.ofText .standard true "5e-324" = .ok e ∧
        e.eval .standard = .ok (.ofBits 1)) ∧
      (Cursor.ofText "5e-324" 0).readNumber = .ok (.ofBits 1, ⟨6, []⟩) := by
  have htext : resultText (some (.ofBits 1)) = "5e-324" := by decide +kernel
  have hfinite : (Double.ofBits 1).isFinite = true := by decide
  have hsign : (Double.ofBits 1).toBits < 2 ^ 63 := by decide
  obtain ⟨hvalue, hread⟩ := eval_ofText_resultText .standard true (.ofBits 1)
  rw [htext] at hvalue hread
  exact ⟨htext, hfinite, hsign, hvalue, hread hfinite hsign⟩

end Report

end Formula
