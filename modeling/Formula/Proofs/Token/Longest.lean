import Formula.Proofs.Token.Literal
import Formula.Token.Basic

/-!
# Numbers are the longest pieces without a fault

Where a number is read, the longest piece counts that stands there, whether or not the number could
end earlier: behind `1` in `1e` there is no number, because the piece is `1e`. Reading part by part
finds this piece, since no part begins like the one before it goes on (`isLongest_iff`).

Main statement: the piece is taken exactly if it is a number and finite, and otherwise the error is
about the first of its parts that lacks digits (`Cursor.readNumber_longest`). A piece with neither
whole digits nor a point is refused too, but none is read where an operand is expected.
-/

namespace Formula

namespace Literal

/-- The longest piece with which the characters begin. -/
structure IsLongest (l : Literal) (cs : List Char) : Prop extends IsPiece l where
  stands : l.spelling <+: cs
  longest : ∀ l' : Literal, l'.IsPiece → l'.spelling <+: cs →
    l'.spelling.length ≤ l.spelling.length

/-! ## No piece is longer than the one that is read -/

/-- Digits are read as far as they go. They go on only if nothing else was to follow. -/
theorem digits_of_prefix {ds tail cs : List Char} (hds : ∀ c ∈ ds, isDigit c)
    (htail : ∀ c ∈ tail.head?, isDigit c = false) (h : ds ++ tail <+: cs) :
    tail = [] ∧ ds.length ≤ (digits cs).1.length ∨
      (digits cs).1 = ds ∧ tail <+: (digits cs).2 := by
  obtain ⟨rest, rfl⟩ := h
  cases tail with
  | nil =>
    left
    rw [digits, List.append_nil, List.takeWhile_append_of_pos hds, List.length_append]
    exact ⟨rfl, Nat.le_add_right _ _⟩
  | cons c tail =>
    right
    have hread : digits (ds ++ (c :: tail ++ rest)) = (ds, c :: tail ++ rest) :=
      digits_append hds htail
    rw [List.append_assoc, hread]
    exact ⟨rfl, List.prefix_append _ rest⟩

/-- An exponent begins with no digit and no point. -/
theorem IsPiece.head_exponentSpelling {l : Literal} (h : l.IsPiece) {c : Char}
    (hc : c ∈ (exponentSpelling l.exponent).head?) : isDigit c = false ∧ c ≠ '.' := by
  cases he : l.exponent with
  | none => rw [he] at hc; cases hc
  | some e =>
    rw [he] at hc
    cases hc
    rcases h.marker e he with hm | hm
    · rw [hm]
      exact ⟨by decide, by decide⟩
    · rw [hm]
      exact ⟨by decide, by decide⟩

theorem IsPiece.length_exponentSpelling_le {l : Literal} (h : l.IsPiece) {cs : List Char}
    (hcs : exponentSpelling l.exponent <+: cs) :
    (exponentSpelling l.exponent).length ≤ (exponentSpelling (readExponent cs)).length := by
  cases he : l.exponent with
  | none => exact Nat.zero_le _
  | some e =>
    obtain ⟨marker, sign, ds⟩ := e
    have hds : ∀ c ∈ ds, isDigit c := h.exponent _ he
    rw [he] at hcs
    obtain ⟨rest, rfl⟩ := hcs
    show (marker :: (sign.toList ++ ds)).length
      ≤ (exponentSpelling (readExponent (marker :: (sign.toList ++ ds ++ rest)))).length
    rw [readExponent, if_pos (h.marker _ he)]
    show (marker :: (sign.toList ++ ds)).length
      ≤ (marker :: ((readSign (sign.toList ++ ds ++ rest)).1.toList
        ++ (digits (readSign (sign.toList ++ ds ++ rest)).2).1)).length
    refine Nat.succ_le_succ ?_
    by_cases hmarker : sign = none ∧ ds = []
    · rw [hmarker.1, hmarker.2]
      exact Nat.zero_le _
    · have hread : readSign (sign.toList ++ (ds ++ rest)) = (sign, ds ++ rest) := by
        refine readSign_append (h.sign _ he) fun hnone c hc => ?_
        obtain ⟨d, ds, rfl⟩ := List.exists_cons_of_ne_nil fun hnil => hmarker ⟨hnone, hnil⟩
        cases hc
        exact ne_sign_of_isDigit (hds c List.mem_cons_self)
      rw [List.append_assoc, hread, List.length_append, List.length_append]
      refine Nat.add_le_add_left ?_ _
      show ds.length ≤ ((ds ++ rest).takeWhile isDigit).length
      rw [List.takeWhile_append_of_pos hds, List.length_append]
      exact Nat.le_add_right _ _

/-- Behind the first digits, no fraction with an exponent is longer than what is read. -/
theorem IsPiece.length_fractionSpelling_le {l : Literal} (h : l.IsPiece) {cs : List Char}
    (hcs : fractionSpelling l.fraction ++ exponentSpelling l.exponent <+: cs) :
    (fractionSpelling l.fraction).length + (exponentSpelling l.exponent).length
      ≤ (fractionSpelling (readFraction cs).1).length
        + (exponentSpelling (readExponent (readFraction cs).2)).length := by
  cases hf : l.fraction with
  | none =>
    rw [hf] at hcs
    cases he : l.exponent with
    | none => exact Nat.zero_le _
    | some e =>
      have hread : readFraction cs = (none, cs) := by
        unfold readFraction
        split
        · -- an exponent stands where the point would be
          obtain ⟨rest, hrest⟩ := hcs
          have hhead : '.' ∈ (exponentSpelling l.exponent).head? := by
            rw [he] at hrest ⊢
            exact congrArg some (List.cons.inj hrest).1
          exact absurd rfl (h.head_exponentSpelling hhead).2
        · rfl
      rw [hread, ← he]
      exact Nat.add_le_add_left (h.length_exponentSpelling_le hcs) _
  | some ds =>
    rw [hf] at hcs
    obtain ⟨rest, rfl⟩ := hcs
    obtain ⟨cs, hcs⟩ : ∃ cs, ds ++ exponentSpelling l.exponent ++ rest = cs := ⟨_, rfl⟩
    have hread : readFraction (fractionSpelling (some ds) ++ exponentSpelling l.exponent ++ rest)
        = (some (digits cs).1, (digits cs).2) := hcs ▸ rfl
    rw [hread]
    show (ds.length + 1) + _ ≤ ((digits cs).1.length + 1) + _
    rcases digits_of_prefix (h.fraction ds hf) (fun c hc => (h.head_exponentSpelling hc).1)
      ⟨rest, hcs⟩ with ⟨hnone, hle⟩ | ⟨hdigits, hexponent⟩
    · rw [hnone]
      exact Nat.le_add_right_of_le (Nat.succ_le_succ hle)
    · rw [hdigits]
      exact Nat.add_le_add_left (h.length_exponentSpelling_le hexponent) _

/-- **No piece is longer than the one that is read.** -/
theorem IsPiece.length_spelling_le {l : Literal} (h : l.IsPiece) {cs : List Char}
    (hcs : l.spelling <+: cs) : l.spelling.length ≤ (read cs).spelling.length := by
  have hread : (read cs).spelling.length = (digits cs).1.length
      + ((fractionSpelling (readFraction (digits cs).2).1).length
        + (exponentSpelling (readExponent (readFraction (digits cs).2).2)).length) := by
    rw [spelling_eq, List.append_assoc, List.length_append, List.length_append]
    rfl
  rw [spelling_eq, List.append_assoc] at hcs
  rw [hread, spelling_eq, List.append_assoc, List.length_append, List.length_append]
  have htail : ∀ c ∈ (fractionSpelling l.fraction ++ exponentSpelling l.exponent).head?,
      isDigit c = false := by
    cases l.fraction with
    | none => exact fun c hc => (h.head_exponentSpelling hc).1
    | some ds => rintro _ ⟨⟩; decide
  rcases digits_of_prefix h.whole htail hcs with ⟨hnone, hle⟩ | ⟨hwhole, htail⟩
  · obtain ⟨hfraction, hexponent⟩ := List.append_eq_nil_iff.mp hnone
    rw [hfraction, hexponent]
    exact Nat.le_add_right_of_le hle
  · rw [hwhole]
    exact Nat.add_le_add_left (h.length_fractionSpelling_le htail) _

/-- **What is read is the longest piece.** -/
theorem isLongest_iff {l : Literal} {cs : List Char} : l.IsLongest cs ↔ l = read cs := by
  have hstands : (read cs).spelling <+: cs := ⟨_, spelling_read_append_drop cs⟩
  constructor
  · intro h
    have hlength := Nat.le_antisymm (h.length_spelling_le h.stands)
      (h.longest _ (isPiece_read cs) hstands)
    have hspelling : l.spelling = (read cs).spelling :=
      (List.prefix_of_prefix_length_le h.stands hstands (Nat.le_of_eq hlength)).eq_of_length hlength
    exact eq_of_spelling_eq h.toIsPiece (isPiece_read cs) hspelling
  · rintro rfl
    exact ⟨isPiece_read cs, hstands, fun l' h' hcs => h'.length_spelling_le hcs⟩

/-! ## What is wrong with a piece -/

/-- Why a piece is no number with a value: the detail of the error, and the characters up to the
place that it is about. -/
inductive Faulty (l : Literal) : String → List Char → Prop where
  | point : l.fraction = some [] →
    Faulty l "Digit expected after the decimal point" (l.whole ++ ['.'])
  | exponent {marker sign} : l.fraction ≠ some [] → l.exponent = some (marker, sign, []) →
    Faulty l "Digit expected in exponent" l.spelling
  | mantissa : l.whole = [] → l.fraction = none → (∀ e ∈ l.exponent, e.2.2 ≠ []) →
    Faulty l ("Invalid numeric literal " ++ Text.quoted (String.ofList l.spelling)) l.spelling
  | range : l.IsNumber → l.value.isInfinite = true →
    Faulty l ("Numeric literal " ++ Text.quoted (String.ofList l.spelling) ++ " is out of range")
      l.spelling

/-- There are characters up to the place. -/
theorem Faulty.piece_ne_nil {l : Literal} {detail : String} {piece : List Char}
    (h : l.Faulty detail piece) (hl : l.spelling ≠ []) : piece ≠ [] := by
  cases h with
  | point _ => simp
  | exponent _ _ | mantissa _ _ _ | range _ _ => exact hl

/-- **The fault that is found is there.** -/
theorem faulty_of_fault? {l : Literal} (h : l.IsPiece) {cause : CompileError.Cause} {n : Nat}
    (hfault : l.fault? = some (cause, n)) :
    ∃ piece rest, l.Faulty cause.detail piece ∧ l.spelling = piece ++ rest ∧ n = piece.length := by
  have hwhole : l.spelling = l.spelling ++ [] := (List.append_nil _).symm
  unfold fault? at hfault
  split at hfault
  · next hfraction =>
    cases hfault
    have hmantissa : l.mantissa = l.whole ++ ['.'] := by rw [mantissa, hfraction]
    exact ⟨_, _, .point hfraction, by rw [spelling, hmantissa], by rw [hmantissa]⟩
  next hfraction =>
  split at hfault
  · next hexponent =>
    cases hfault
    obtain ⟨marker, sign, he⟩ := l.any_exponent_iff.mp hexponent
    exact ⟨_, [], .exponent hfraction he, hwhole, rfl⟩
  next hexponent =>
  have hdigits := exponent_ne_of_not_any hexponent
  split at hfault
  · next hmantissa =>
    cases hfault
    obtain ⟨hnone, hpoint⟩ := l.mantissa_eq_nil_iff.mp hmantissa
    exact ⟨_, [], .mantissa hnone hpoint hdigits, hwhole, rfl⟩
  next hmantissa =>
  split at hfault
  · next hinfinite =>
    cases hfault
    rw [mantissa_eq_nil_iff, Classical.not_and_iff_not_or_not] at hmantissa
    exact ⟨_, [], .range ⟨h, hmantissa, hfraction, hdigits⟩ hinfinite, hwhole, rfl⟩
  · cases hfault

end Literal

/-! ## Reading at a cursor -/

/-- A number that begins with a digit or a point has a mantissa. -/
theorem Literal.mantissa_read_ne_nil {c : Char} (cs : List Char) (h : startsNumber c = true) :
    (read (c :: cs)).mantissa ≠ [] := by
  rw [ne_eq, mantissa_eq_nil_iff]
  rintro ⟨hwhole, hfraction⟩
  by_cases hc : isDigit c = true
  · have hfirst : (digits (c :: cs)).1 = c :: (digits cs).1 := List.takeWhile_cons_of_pos hc
    exact List.cons_ne_nil _ _ (hfirst.symm.trans hwhole)
  · have hpoint : c = '.' := by simpa [startsNumber, hc] using h
    subst hpoint
    cases hfraction

namespace Cursor

theorem advance_ofText (text : String) (pos n : Nat) :
    (ofText text pos).advance n = ofText text (pos + n) := by
  rw [advance, ofText, List.drop_drop]
  rfl

/-- Where an operand is expected, an error is one of a number, which begins there. -/
theorem readNumber_of_operandToken_eq_error {c : Cursor} {e : CompileError}
    (h : c.operandToken = .error e) :
    ∃ ch cs, c.rest = ch :: cs ∧ startsNumber ch = true ∧ c.readNumber = .error e := by
  unfold operandToken at h
  split at h
  · cases h
  next ch cs hc =>
  split at h
  · cases h
  split at h
  · next hch =>
    split at h
    · cases h
    · next herror =>
      cases h
      exact ⟨ch, cs, hc, hch, herror⟩
  split at h
  · cases h
  split at h
  · cases h
  split at h
  · cases h
  · cases h

theorem readNumber_eq_ok_iff {c d : Cursor} {v : Double} :
    c.readNumber = .ok (v, d) ↔
      (Literal.read c.rest).IsNumber ∧ (Literal.read c.rest).value.isInfinite = false ∧
        v = (Literal.read c.rest).value ∧ d = c.advance (Literal.read c.rest).spelling.length := by
  rw [← and_assoc, ← Literal.fault?_eq_none_iff (Literal.isPiece_read c.rest), readNumber]
  cases (Literal.read c.rest).fault? with
  | none =>
    constructor
    · rintro ⟨⟩
      exact ⟨rfl, rfl, rfl⟩
    · rintro ⟨-, rfl, rfl⟩
      rfl
  | some fault =>
    constructor
    · rintro ⟨⟩
    · rintro ⟨⟨⟩, -⟩

theorem exists_of_readNumber_eq_error {c : Cursor} {e : CompileError}
    (h : c.readNumber = .error e) :
    ∃ n, (Literal.read c.rest).fault? = some (e.cause, n) ∧ e = c.errorQuoting e.cause n := by
  unfold readNumber at h
  simp only at h
  split at h
  · next cause n hfault =>
    cases h
    exact ⟨n, hfault, rfl⟩
  · cases h

/-- **An error shows the characters up to the fault.** -/
theorem exists_faulty_of_readNumber {c : Cursor} {e : CompileError} (h : c.readNumber = .error e) :
    ∃ piece rest, (Literal.read c.rest).Faulty e.detail piece ∧ c.rest = piece ++ rest ∧
      e = c.errorQuoting e.cause piece.length := by
  obtain ⟨n, hfault, herror⟩ := exists_of_readNumber_eq_error h
  obtain ⟨piece, rest, hfaulty, hspelling, rfl⟩ :=
    Literal.faulty_of_fault? (Literal.isPiece_read c.rest) hfault
  have hstands := Literal.spelling_read_append_drop c.rest
  rw [hspelling, List.append_assoc] at hstands
  exact ⟨piece, _, hfaulty, hstands.symm, herror⟩

/-- An operand that begins a number has a mantissa. -/
theorem cause_ne_noNumber_of_operandToken {c : Cursor} {e : CompileError}
    (h : c.operandToken = .error e) (s : String) : e.cause ≠ .noNumber s := by
  obtain ⟨ch, cs, hc, hstarts, hread⟩ := readNumber_of_operandToken_eq_error h
  obtain ⟨n, hfault, -⟩ := exists_of_readNumber_eq_error hread
  rintro hcause
  rw [hcause, hc, Literal.fault?] at hfault
  split at hfault
  · cases hfault
  split at hfault
  · cases hfault
  split at hfault
  · next hmantissa => exact Literal.mantissa_read_ne_nil cs hstarts hmantissa
  split at hfault
  · cases hfault
  · cases hfault

/--
**A number is read exactly if the longest piece is one.**

Let `l` be the longest piece that stands at a position of a text; there is just one. Reading a
number there succeeds exactly if `l` is a number with a finite value, and gives this value and the
end of `l`. Otherwise the error starts at the position, shows the characters up to the place of the
fault, and says which one it is. Where an operand is read, none is without a mantissa.
-/
theorem readNumber_longest (text : String) (pos : Nat) :
    ∃ l : Literal, (∀ l', l'.IsLongest (text.toList.drop pos) ↔ l' = l) ∧
      (∀ v c, (ofText text pos).readNumber = .ok (v, c) ↔
        l.IsNumber ∧ l.value.isInfinite = false ∧
          v = l.value ∧ c = ofText text (pos + l.spelling.length)) ∧
      (∀ e, (ofText text pos).readNumber = .error e →
        ∃ piece, l.Faulty e.detail piece ∧
          e.start = pos ∧ e.stop = pos + piece.length ∧ e.found = some (String.ofList piece)) ∧
      ∀ e s, (ofText text pos).readToken .operand = .error e → e.cause ≠ .noNumber s := by
  refine ⟨Literal.read (text.toList.drop pos), fun l' => Literal.isLongest_iff, ?_, ?_, ?_⟩
  · intro v c
    rw [readNumber_eq_ok_iff, advance_ofText]
    rfl
  · intro e he
    obtain ⟨piece, rest, hfaulty, hrest, herror⟩ := exists_faulty_of_readNumber he
    refine ⟨piece, hfaulty, by rw [herror]; rfl, by rw [herror]; rfl, ?_⟩
    rw [herror]
    show some (String.ofList ((ofText text pos).rest.take piece.length)) = _
    rw [hrest, List.take_left]
  · intro e s he
    exact cause_ne_noNumber_of_operandToken he s

/-- The point lacks its digits, although an exponent follows. -/
example : (ofText "2*1.e5" 2).readNumber = .error ⟨.digitAfterPoint, 2, 4, some "1."⟩ := by
  rfl

end Cursor

end Formula
