import Formula.Proofs.Program.Errors

/-!
# What an error shows

A text is refused at a cursor that stands behind the spaces, and each error is one of a number of
characters from there on (`Refused.exists_error`). There are as many characters as the error
shows, so its span lies in the text and what it quotes stands there (`Refused.spans`).

What stands at the place depends on the cause. A literal is refused where an operand is expected, so
it begins at the place. At a close bracket that is refused no bracket is open in the yard. Then none
is open in the text either, and hence none before it has this bracket for its match.

Main statement: `compile_error_spans`.
-/

namespace Formula

/-! ## Spans -/

/-- The error has a span of the text. It quotes the characters of the span if there are any. -/
structure CompileError.Spans (error : CompileError) (text : String) : Prop where
  start_le : error.start ≤ error.stop
  stop_le : error.stop ≤ text.length
  found : error.found = if error.start = error.stop then none
    else some (String.ofList ((text.toList.take error.stop).drop error.start))

namespace Cursor

theorem errorQuoting_eq {n : Nat} (hn : n ≠ 0) (c : Cursor) (cause : CompileError.Cause) :
    c.errorQuoting cause n = c.error cause n := by
  rw [error, if_neg hn]
  rfl

theorem spans_error {text : String} {pos n : Nat} (h : pos + n ≤ text.length)
    (cause : CompileError.Cause) : ((ofText text pos).error cause n).Spans text where
  start_le := Nat.le_add_right pos n
  stop_le := h
  found := by
    have hchars : (text.toList.drop pos).take n = (text.toList.take (pos + n)).drop pos :=
      List.take_drop
    simp [error, ofText, Cursor.text, hchars]

end Cursor

/-- **Every error is about the next characters behind the spaces.** -/
theorem Refused.exists_error {e : Expected} {c : Cursor} {y : Yard} {error : CompileError}
    (h : Refused e c y error) :
    ∃ n ≤ c.skipSpaces.rest.length, error = c.skipSpaces.error error.cause n := by
  cases h with
  | number herror =>
    obtain ⟨ch, cs, hc, hch, hread⟩ := Cursor.readNumber_of_operandToken_eq_error herror
    obtain ⟨piece, rest, hfaulty, hrest, herror⟩ := Cursor.exists_faulty_of_readNumber hread
    have hspelling : (Literal.read c.skipSpaces.rest).spelling ≠ [] := by
      rw [hc]
      exact List.ne_nil_of_length_pos (Literal.spelling_ne_nil_of_starts cs hch)
    have hpiece : piece.length ≠ 0 := by simpa using hfaulty.piece_ne_nil hspelling
    refine ⟨piece.length, ?_, ?_⟩
    · rw [hrest, List.length_append]
      exact Nat.le_add_right _ _
    · rw [← Cursor.errorQuoting_eq hpiece]
      exact herror
  | operand _ => exact ⟨_, Nat.le_refl _, rfl⟩
  | input _ _ => exact ⟨_, Nat.le_refl _, rfl⟩
  | missing _ _ => exact ⟨0, Nat.zero_le _, rfl⟩
  | bracket hbracket _ =>
    have hrest := Cursor.rest_of_closeBracket hbracket
    refine ⟨1, ?_, ?_⟩
    · rw [hrest]
      exact Nat.succ_pos _
    · rw [Cursor.error, Cursor.text, hrest]
      rfl

namespace Reads

variable {text : String} {ls : List Located} {e : Expected} {c : Cursor}

/-- A cursor is a place of the text. -/
theorem skipSpaces_eq (h : Reads .operand (Cursor.ofText text 0) ls e c) :
    c.skipSpaces = Cursor.ofText text c.skipSpaces.pos := by
  obtain ⟨cs, blanks, -, hcs, hrest, -, hpos⟩ := h.exists_split
  have hdrop : text.toList.drop c.skipSpaces.pos = c.skipSpaces.rest := by
    rw [hpos, hcs, hrest, ← List.append_assoc]
    exact List.drop_left
  rw [Cursor.ofText, hdrop]

theorem pos_add_length (h : Reads .operand (Cursor.ofText text 0) ls e c) :
    c.skipSpaces.pos + c.skipSpaces.rest.length = text.length := by
  obtain ⟨cs, blanks, -, hcs, hrest, -, hpos⟩ := h.exists_split
  rw [hpos, ← List.length_append, List.append_assoc, ← hrest, ← hcs, String.length_toList]

end Reads

/-! ## Places -/

/-- A literal with a fault begins at the error, where an operand is expected. -/
structure CompileError.AtLiteral (error : CompileError) (text : String) : Prop where
  expected : ∃ ts, Splits (text.toList.take error.start) ts ∧
    Expected.operand.through ts = some .operand
  begins : ∃ ch, text.toList[error.start]? = some ch ∧ startsNumber ch
  faulty : ∃ l : Literal, l.IsLongest (text.toList.drop error.start) ∧
    ∃ piece, l.Faulty error.detail piece ∧ error.stop = error.start + piece.length

/-- The error is one close bracket, and no open bracket before it has it for its match. -/
structure CompileError.AtBracket (error : CompileError) (text : String) : Prop where
  stop : error.stop = error.start + 1
  bracket : text.toList[error.start]? = some ')'
  unmatched : ∀ before inside, text.toList.take error.start = before ++ '(' :: inside →
    ¬Balanced inside

/-- Where an error stands, by its cause. -/
def CompileError.Stands (error : CompileError) (text : String) : Prop :=
  match error.cause with
  | .operandExpected | .unexpectedInput =>
    error.stop = text.length ∧
      (error.start = text.length ∨ ∃ ch, text.toList[error.start]? = some ch ∧ ch ≠ ' ')
  | .missingCloseBracket => error.start = text.length ∧ error.stop = text.length
  | .unmatchedCloseBracket => error.AtBracket text
  | .digitAfterPoint | .digitInExponent | .noNumber _ | .numberOutOfRange _ => error.AtLiteral text

section

variable {text : String} {ls : List Located} {e : Expected} {c : Cursor} {y : Yard}
  {error : CompileError} (hreads : Reads .operand (Cursor.ofText text 0) ls e c)

include hreads

theorem Refused.spans (h : Refused e c y error) : error.Spans text := by
  obtain ⟨n, hn, herror⟩ := h.exists_error
  rw [herror, hreads.skipSpaces_eq]
  refine Cursor.spans_error ?_ _
  rw [← hreads.pos_add_length]
  exact Nat.add_le_add_left hn _

namespace Reads

theorem drop_eq : text.toList.drop c.skipSpaces.pos = c.skipSpaces.rest :=
  (congrArg Cursor.rest hreads.skipSpaces_eq).symm

/-- The next character is the one at the place. -/
theorem getElem?_pos : text.toList[c.skipSpaces.pos]? = c.skipSpaces.rest.head? := by
  rw [← hreads.drop_eq, List.head?_drop]

/-- Behind the spaces there is no space. -/
theorem end_or_ne_space : c.skipSpaces.pos = text.length ∨
    ∃ ch, text.toList[c.skipSpaces.pos]? = some ch ∧ ch ≠ ' ' := by
  rw [hreads.getElem?_pos]
  cases hrest : c.skipSpaces.rest with
  | nil =>
    left
    rw [← hreads.pos_add_length, hrest]
    rfl
  | cons ch cs => exact .inr ⟨ch, rfl, Cursor.head_skipSpaces_ne_space (by rw [hrest]; rfl)⟩

end Reads

theorem CompileError.atLiteral_of_readToken (he : c.readToken e = .error error) :
    error.AtLiteral text := by
  obtain ⟨rfl, hstart, -⟩ := Cursor.exists_of_readToken_eq_error he
  obtain ⟨ch, cs, hc, hch, hread⟩ := Cursor.readNumber_of_operandToken_eq_error he
  obtain ⟨piece, rest, hfaulty, -, hquoting⟩ := Cursor.exists_faulty_of_readNumber hread
  constructor
  · rw [hstart]
    exact ⟨_, hreads.splits_take, hreads.through⟩
  · rw [hstart, hreads.getElem?_pos, hc]
    exact ⟨ch, rfl, hch⟩
  · refine ⟨Literal.read c.skipSpaces.rest, ?_, piece, hfaulty, ?_⟩
    · rw [hstart, hreads.drop_eq]
      exact Literal.isLongest_iff.mpr rfl
    · rw [hstart, hquoting]
      rfl

theorem CompileError.atBracket_of_readToken {d : Cursor}
    (hy : Yard.start.takeAll (ls.map Located.token) = some y)
    (hc : c.readToken .operator = .ok (some .closeBracket, d))
    (hzero : Yard.openCount y.pending = 0) (herror : error.start = c.skipSpaces.pos)
    (hstop : error.stop = c.skipSpaces.pos + 1) : error.AtBracket text := by
  constructor
  · rw [hstop, herror]
  · rw [herror, hreads.getElem?_pos, Cursor.rest_of_closeBracket hc]
    rfl
  · intro before inside hbefore
    have hopen : unmatchedBrackets (text.toList.take error.start) = 0 := by
      rw [herror, ← hzero]
      exact Yard.foldl_depthAfter_of_splits hreads.splits_take hy
    exact not_balanced_of_unmatchedBrackets_eq_zero hopen hbefore

/-- **What stands at the place of an error.** -/
theorem Refused.stands (hy : Yard.start.takeAll (ls.map Located.token) = some y)
    (h : Refused e c y error) : error.Stands text := by
  cases h with
  | number he =>
    have hliteral := CompileError.atLiteral_of_readToken hreads he
    obtain ⟨-, -, l, n, hfault⟩ := Cursor.exists_of_readToken_eq_error he
    obtain ⟨hne, hmissing⟩ := Literal.cause_ne_of_fault? hfault
    unfold CompileError.Stands
    cases hcause : error.cause with
    | digitAfterPoint | digitInExponent | noNumber s | numberOutOfRange s => exact hliteral
    | operandExpected => exact (hne (.inl hcause)).elim
    | unexpectedInput => exact (hne (.inr (.inl hcause))).elim
    | unmatchedCloseBracket => exact (hne (.inr (.inr hcause))).elim
    | missingCloseBracket => exact absurd hcause hmissing
  | operand _ => exact ⟨hreads.pos_add_length, hreads.end_or_ne_space⟩
  | input _ _ => exact ⟨hreads.pos_add_length, hreads.end_or_ne_space⟩
  | missing hrest _ =>
    have hpos := hreads.pos_add_length
    rw [hrest] at hpos
    exact ⟨hpos, hpos⟩
  | bracket hbracket hzero =>
    exact CompileError.atBracket_of_readToken hreads hy hbracket hzero rfl rfl

end

/--
**An error shows what is wrong.**

Its span lies in the text, and it quotes the span exactly if there are characters in it. An operand
that is missing and unexpected input are shown from a character that is no space, or from the end,
to the end. A close bracket that is refused is shown alone, and no open bracket before it matches
it. A literal is shown from its first character to its fault. Brackets that are not closed are
missed at the end.
-/
theorem compile_error_spans (F : Folding) (text : String) (table : Table) {error : CompileError}
    (h : (compile F text table).program = .error error) :
    error.Spans text ∧ error.Stands text := by
  obtain ⟨ls, e, c, y, hreads, hy, hrefused⟩ :=
    Ordered.exists_refused (program_compile_eq_error_iff.mp h)
  exact ⟨hrefused.spans hreads, hrefused.stands hreads hy⟩

/-- A close bracket behind one pair of brackets, and a point without digits behind a product. -/
theorem compile_error_spans_bracket_and_point :
    ((compile ⟨.standard, true⟩ "(a)+b) - 1" .withConstants).program
          = .error ⟨.unmatchedCloseBracket, 5, 6, some ")"⟩ ∧
        ∀ before inside, "(a)+b) - 1".toList.take 5 = before ++ '(' :: inside →
          ¬Balanced inside) ∧
      (compile ⟨.standard, true⟩ "2* 1.e5" .withConstants).program
          = .error ⟨.digitAfterPoint, 3, 5, some "1."⟩ ∧
        ∃ l : Literal, l.IsLongest ("2* 1.e5".toList.drop 3) ∧
          ∃ piece, l.Faulty "Digit expected after the decimal point" piece ∧
            5 = 3 + piece.length := by
  have hbracket : (compile ⟨.standard, true⟩ "(a)+b) - 1" .withConstants).program
      = .error ⟨.unmatchedCloseBracket, 5, 6, some ")"⟩ := by
    decide +kernel
  have hliteral : (compile ⟨.standard, true⟩ "2* 1.e5" .withConstants).program
      = .error ⟨.digitAfterPoint, 3, 5, some "1."⟩ := by
    decide +kernel
  obtain ⟨-, hatBracket⟩ := compile_error_spans _ _ _ hbracket
  obtain ⟨-, hatLiteral⟩ := compile_error_spans _ _ _ hliteral
  exact ⟨⟨hbracket, hatBracket.unmatched⟩, hliteral, hatLiteral.faulty⟩

end Formula
