import Formula.Token.Literal

/-!
# Number literals and their grammar

    number   := mantissa exponent?
    mantissa := D+ ('.' D+)? | '.' D+
    exponent := ('e' | 'E') ('+' | '-')? D+

The longest piece that is read has the parts of a number, but each of them may lack its digits.
Main statements: a piece has no fault exactly if it is a number and its value is finite
(`fault?_eq_none_iff`), and a number is read as it was written exactly if what stands behind it does
not go on with it (`read_spelling_append`, `stops_read`). Whether it goes on shows in the next
character (`Stops`).
-/

namespace Formula

/-! ## Characters of one kind -/

section

variable {p : Char → Bool} {cs rest : List Char}

/-- The characters of one kind end where one of another kind follows. -/
theorem span_append (hcs : ∀ c ∈ cs, p c) (hr : ∀ c ∈ rest.head?, p c = false) :
    (cs ++ rest).takeWhile p = cs ∧ (cs ++ rest).dropWhile p = rest := by
  have hrest : rest.takeWhile p = [] ∧ rest.dropWhile p = rest := by
    cases rest with
    | nil => exact ⟨rfl, rfl⟩
    | cons c rest => simp [hr c rfl]
  rw [List.takeWhile_append_of_pos hcs, List.dropWhile_append_of_pos hcs, hrest.1, hrest.2]
  exact ⟨List.append_nil cs, rfl⟩

/-- Behind all characters of one kind stands one of another kind. -/
theorem eq_false_of_mem_head_dropWhile {c : Char} (h : c ∈ (cs.dropWhile p).head?) :
    p c = false := by
  have hhead := List.head?_dropWhile_not p cs
  rw [Option.mem_def.mp h] at hhead
  simpa using hhead

end

/-! ## Pieces -/

namespace Literal

/-- `D* ('.' D*)? (('e' | 'E') ('+' | '-')? D*)?` -/
structure IsPiece (l : Literal) : Prop where
  whole : ∀ c ∈ l.whole, isDigit c
  fraction : ∀ ds ∈ l.fraction, ∀ c ∈ ds, isDigit c
  marker : ∀ e ∈ l.exponent, e.1 = 'e' ∨ e.1 = 'E'
  sign : ∀ e ∈ l.exponent, e.2.1 = none ∨ e.2.1 = some '+' ∨ e.2.1 = some '-'
  exponent : ∀ e ∈ l.exponent, ∀ c ∈ e.2.2, isDigit c

/-- A piece in which no part lacks its digits. -/
structure IsNumber (l : Literal) : Prop extends IsPiece l where
  mantissa_ne : l.whole ≠ [] ∨ l.fraction ≠ none
  fraction_ne : l.fraction ≠ some []
  exponent_ne : ∀ e ∈ l.exponent, e.2.2 ≠ []

/-! ## Digits -/

theorem digits_append {ds rest : List Char} (hd : ∀ c ∈ ds, isDigit c)
    (hr : ∀ c ∈ rest.head?, isDigit c = false) : digits (ds ++ rest) = (ds, rest) := by
  obtain ⟨htake, hdrop⟩ := span_append hd hr
  rw [digits, htake, hdrop]

theorem digits_fst_append_snd (cs : List Char) : (digits cs).1 ++ (digits cs).2 = cs :=
  List.takeWhile_append_dropWhile

theorem isDigit_of_mem_digits {cs : List Char} {c : Char} (h : c ∈ (digits cs).1) : isDigit c :=
  List.all_eq_true.mp List.all_takeWhile c h

/-! ## The piece that is read -/

/-- The characters of a fraction. -/
def fractionSpelling : Option (List Char) → List Char
  | none => []
  | some ds => '.' :: ds

/-- The characters of an exponent. -/
def exponentSpelling : Option (Char × Option Char × List Char) → List Char
  | none => []
  | some (marker, sign, ds) => marker :: sign.toList ++ ds

theorem spelling_eq (l : Literal) :
    l.spelling = l.whole ++ fractionSpelling l.fraction ++ exponentSpelling l.exponent := by
  rcases l with ⟨whole, _ | ds, _ | ⟨marker, sign, es⟩⟩ <;> rfl

/-- The characters of a piece are digits, a point, the marker of an exponent and its sign. -/
theorem IsPiece.char_of_mem {l : Literal} (h : l.IsPiece) {c : Char} (hc : c ∈ l.spelling) :
    isDigit c ∨ c ∈ ['.', 'e', 'E', '+', '-'] := by
  rw [spelling_eq, List.mem_append, List.mem_append] at hc
  rcases hc with (hc | hc) | hc
  · exact .inl (h.whole c hc)
  · cases hf : l.fraction with
    | none => rw [hf] at hc; cases hc
    | some ds =>
      rw [hf] at hc
      rcases List.mem_cons.mp hc with rfl | hc
      · exact .inr (by decide)
      · exact .inl (h.fraction ds hf c hc)
  · cases he : l.exponent with
    | none => rw [he] at hc; cases hc
    | some e =>
      obtain ⟨marker, sign, ds⟩ := e
      have hmarker : marker = 'e' ∨ marker = 'E' := h.marker _ he
      have hsign : sign = none ∨ sign = some '+' ∨ sign = some '-' := h.sign _ he
      rw [he] at hc
      rcases List.mem_append.mp hc with hc | hc
      · rcases List.mem_cons.mp hc with rfl | hc
        · rcases hmarker with rfl | rfl <;> exact .inr (by decide)
        · rcases hsign with rfl | rfl | rfl
          · cases hc
          · rw [List.mem_singleton.mp hc]; exact .inr (by decide)
          · rw [List.mem_singleton.mp hc]; exact .inr (by decide)
      · exact .inl (h.exponent _ he c hc)

theorem readFraction_spec (cs : List Char) :
    fractionSpelling (readFraction cs).1 ++ (readFraction cs).2 = cs ∧
      ∀ ds ∈ (readFraction cs).1, ∀ c ∈ ds, isDigit c := by
  unfold readFraction
  split
  · next cs =>
    refine ⟨congrArg ('.' :: ·) (digits_fst_append_snd cs), ?_⟩
    rintro _ ⟨⟩ c hc
    exact isDigit_of_mem_digits hc
  · refine ⟨rfl, ?_⟩
    intro ds h
    cases h

theorem readSign_spec (cs : List Char) :
    (readSign cs).1.toList ++ (readSign cs).2 = cs ∧
      ((readSign cs).1 = none ∨ (readSign cs).1 = some '+' ∨ (readSign cs).1 = some '-') := by
  unfold readSign
  split <;> simp

theorem readExponent_spec (cs : List Char) :
    (∃ rest, exponentSpelling (readExponent cs) ++ rest = cs) ∧
      ∀ e ∈ readExponent cs, (e.1 = 'e' ∨ e.1 = 'E') ∧
        (e.2.1 = none ∨ e.2.1 = some '+' ∨ e.2.1 = some '-') ∧ ∀ c ∈ e.2.2, isDigit c := by
  unfold readExponent
  split
  · next c cs =>
    split
    · next hc =>
      obtain ⟨h1, h2⟩ := readSign_spec cs
      refine ⟨⟨(digits (readSign cs).2).2, ?_⟩, ?_⟩
      · show c :: ((readSign cs).1.toList ++ (digits (readSign cs).2).1) ++ _ = _
        rw [List.cons_append, List.append_assoc, digits_fst_append_snd, h1]
      · rintro _ ⟨⟩
        exact ⟨hc, h2, fun d hd => isDigit_of_mem_digits hd⟩
    · refine ⟨⟨c :: cs, rfl⟩, ?_⟩
      intro e h
      cases h
  · refine ⟨⟨[], rfl⟩, ?_⟩
    intro e h
    cases h

/-- **What is read is a piece.** -/
theorem isPiece_read (cs : List Char) : (read cs).IsPiece where
  whole _ hc := isDigit_of_mem_digits hc
  fraction := (readFraction_spec _).2
  marker e he := ((readExponent_spec _).2 e he).1
  sign e he := ((readExponent_spec _).2 e he).2.1
  exponent e he := ((readExponent_spec _).2 e he).2.2

/-- **What is read stands at the beginning.** -/
theorem spelling_read_append_drop (cs : List Char) :
    (read cs).spelling ++ cs.drop (read cs).spelling.length = cs := by
  obtain ⟨rest, h⟩ := (readExponent_spec (readFraction (digits cs).2).2).1
  have key : (read cs).spelling ++ rest = cs := by
    rw [spelling_eq, List.append_assoc]
    show (digits cs).1 ++ fractionSpelling (readFraction (digits cs).2).1
      ++ (exponentSpelling (readExponent (readFraction (digits cs).2).2) ++ rest) = cs
    rw [h, List.append_assoc, (readFraction_spec _).1, digits_fst_append_snd]
  have hdrop : cs.drop (read cs).spelling.length = rest := by
    conv => lhs; arg 2; rw [← key]
    exact List.drop_left
  rw [hdrop, key]

theorem mantissa_eq_nil_iff (l : Literal) : l.mantissa = [] ↔ l.whole = [] ∧ l.fraction = none := by
  rcases l with ⟨whole, _ | ds, e⟩ <;> simp [mantissa]

theorem any_exponent_iff (l : Literal) : (l.exponent.any fun e => decide (e.2.2 = [])) = true ↔
    ∃ marker sign, l.exponent = some (marker, sign, []) := by
  cases l.exponent with
  | none => simp
  | some e =>
    obtain ⟨marker, sign, ds⟩ := e
    simp

theorem exponent_ne_of_not_any {l : Literal}
    (h : ¬(l.exponent.any fun e => decide (e.2.2 = [])) = true) :
    ∀ e ∈ l.exponent, e.2.2 ≠ [] := by
  rintro ⟨marker, sign, ds⟩ he hds
  obtain rfl : ds = [] := hds
  exact h (l.any_exponent_iff.mpr ⟨marker, sign, he⟩)

/-- The only fault of a number is that it is out of range. -/
theorem IsNumber.fault?_eq {l : Literal} (h : l.IsNumber) :
    l.fault? = if l.value.isInfinite then
      some (.numberOutOfRange (String.ofList l.spelling), l.spelling.length) else none := by
  have hexponent : ¬(l.exponent.any fun e => decide (e.2.2 = [])) = true := by
    rw [any_exponent_iff]
    rintro ⟨marker, sign, he⟩
    exact h.exponent_ne _ he rfl
  have hmantissa : ¬l.mantissa = [] := by
    rw [mantissa_eq_nil_iff]
    rintro ⟨hwhole, hfraction⟩
    exact h.mantissa_ne.elim (absurd hwhole) (absurd hfraction)
  rw [fault?, if_neg h.fraction_ne, if_neg hexponent, if_neg hmantissa]

/-- A piece without a fault is a number. -/
theorem isNumber_of_fault?_eq_none {l : Literal} (h : l.IsPiece) (hfault : l.fault? = none) :
    l.IsNumber := by
  unfold fault? at hfault
  split at hfault
  · cases hfault
  next hfraction =>
  split at hfault
  · cases hfault
  next hexponent =>
  split at hfault
  · cases hfault
  next hmantissa =>
  rw [mantissa_eq_nil_iff, Classical.not_and_iff_not_or_not] at hmantissa
  exact ⟨h, hmantissa, hfraction, exponent_ne_of_not_any hexponent⟩

/-- **The faults of a piece.** -/
theorem fault?_eq_none_iff {l : Literal} (h : l.IsPiece) :
    l.fault? = none ↔ l.IsNumber ∧ l.value.isInfinite = false := by
  constructor
  · intro hfault
    have hnumber := isNumber_of_fault?_eq_none h hfault
    rw [hnumber.fault?_eq] at hfault
    split at hfault
    · cases hfault
    · next hfinite => exact ⟨hnumber, eq_false_of_ne_true hfinite⟩
  · rintro ⟨hnumber, hfinite⟩
    rw [hnumber.fault?_eq, hfinite]
    rfl

/-! ## Reading a number back -/

/-- Nothing goes on with a literal here. -/
def Ends (rest : List Char) : Prop :=
  ∀ c ∈ rest.head?, isDigit c = false ∧ c ≠ '.' ∧ c ≠ 'e' ∧ c ≠ 'E'

/-- What follows does not go on with the literal: not with its last digits, not with an exponent if
it has none, and not with a fraction if it has neither. -/
def Stops (l : Literal) (rest : List Char) : Prop :=
  ∀ c ∈ rest.head?, isDigit c = false ∧
    (l.exponent = none → (c ≠ 'e' ∧ c ≠ 'E') ∧ (l.fraction = none → c ≠ '.'))

theorem Ends.stops {rest : List Char} (h : Ends rest) (l : Literal) : l.Stops rest := fun c hc =>
  ⟨(h c hc).1, fun _ => ⟨(h c hc).2.2, fun _ => (h c hc).2.1⟩⟩

/-- Only the next character counts. -/
theorem Stops.congr {l : Literal} {rest rest' : List Char} (h : l.Stops rest)
    (hr : rest'.head? = rest.head?) : l.Stops rest' := fun c hc => h c (hr ▸ hc)

/-- What follows does not give a sign to an exponent that is only its marker. -/
def StopsSign (l : Literal) (rest : List Char) : Prop :=
  ∀ e ∈ l.exponent, e.2.1 = none → e.2.2 = [] → ∀ c ∈ rest.head?, c ≠ '+' ∧ c ≠ '-'

theorem IsNumber.stopsSign {l : Literal} (h : l.IsNumber) (rest : List Char) : l.StopsSign rest :=
  fun e he _ hds => absurd hds (h.exponent_ne e he)

theorem ne_sign_of_isDigit {c : Char} (h : isDigit c) : c ≠ '+' ∧ c ≠ '-' :=
  ⟨by rintro rfl; exact absurd h (by decide), by rintro rfl; exact absurd h (by decide)⟩

theorem readSign_append {sign : Option Char} {cs : List Char}
    (hs : sign = none ∨ sign = some '+' ∨ sign = some '-')
    (hcs : sign = none → ∀ c ∈ cs.head?, c ≠ '+' ∧ c ≠ '-') :
    readSign (sign.toList ++ cs) = (sign, cs) := by
  rcases hs with rfl | rfl | rfl
  · show readSign cs = _
    unfold readSign
    split
    · exact absurd rfl (hcs rfl '+' rfl).1
    · exact absurd rfl (hcs rfl '-' rfl).2
    · rfl
  · rfl
  · rfl

theorem readExponent_append {l : Literal} (h : l.IsPiece) {rest : List Char} (hr : l.Stops rest)
    (hsign : l.StopsSign rest) :
    readExponent (exponentSpelling l.exponent ++ rest) = l.exponent := by
  cases he : l.exponent with
  | none =>
    cases rest with
    | nil => rfl
    | cons c rest =>
      obtain ⟨h1, h2⟩ := ((hr c rfl).2 he).1
      show readExponent (c :: rest) = none
      rw [readExponent, if_neg (by simp [h1, h2])]
  | some e =>
    obtain ⟨marker, sign, ds⟩ := e
    have hm : marker = 'e' ∨ marker = 'E' := h.marker _ he
    have hds : ∀ c ∈ ds, isDigit c := h.exponent _ he
    have hdig : digits (ds ++ rest) = (ds, rest) := digits_append hds fun c hc => (hr c hc).1
    have hread : readSign (sign.toList ++ (ds ++ rest)) = (sign, ds ++ rest) := by
      refine readSign_append (h.sign _ he) fun hnone c hc => ?_
      cases ds with
      | nil => exact hsign _ he hnone rfl c hc
      | cons d ds =>
        -- the first digit is not taken for a sign
        cases hc
        exact ne_sign_of_isDigit (hds c List.mem_cons_self)
    show readExponent (marker :: (sign.toList ++ ds) ++ rest) = _
    rw [List.cons_append, List.append_assoc, readExponent, if_pos hm, hread]
    simp only [hdig]

/-- **A piece is read as it was written.** -/
theorem IsPiece.read_spelling_append {l : Literal} (h : l.IsPiece) {rest : List Char}
    (hr : l.Stops rest) (hsign : l.StopsSign rest) : read (l.spelling ++ rest) = l := by
  -- neither the exponent nor what follows begins with a digit, or with a point if there is none
  have hexp : ∀ c ∈ (exponentSpelling l.exponent ++ rest).head?,
      isDigit c = false ∧ (l.fraction = none → c ≠ '.') := by
    cases he : l.exponent with
    | none => exact fun c hc => ⟨(hr c hc).1, ((hr c hc).2 he).2⟩
    | some e =>
      rintro _ ⟨⟩
      rcases h.marker _ he with hm | hm
      · rw [hm]
        exact ⟨by decide, fun _ => by decide⟩
      · rw [hm]
        exact ⟨by decide, fun _ => by decide⟩
  have hfrac : readFraction (fractionSpelling l.fraction ++ (exponentSpelling l.exponent ++ rest))
      = (l.fraction, exponentSpelling l.exponent ++ rest) := by
    cases hf : l.fraction with
    | none =>
      show readFraction (exponentSpelling l.exponent ++ rest) = _
      unfold readFraction
      split
      · next heq => exact absurd rfl ((hexp '.' (by rw [heq]; rfl)).2 hf)
      · rfl
    | some ds =>
      show readFraction ('.' :: (ds ++ _)) = _
      rw [readFraction, digits_append (h.fraction ds hf) fun c hc => (hexp c hc).1]
  have hwhole : digits (l.whole ++ (fractionSpelling l.fraction
      ++ (exponentSpelling l.exponent ++ rest)))
      = (l.whole, fractionSpelling l.fraction ++ (exponentSpelling l.exponent ++ rest)) := by
    refine digits_append h.whole ?_
    cases l.fraction with
    | none => exact fun c hc => (hexp c hc).1
    | some ds => rintro _ ⟨⟩; decide
  rw [spelling_eq, List.append_assoc, List.append_assoc]
  unfold read
  simp only [hwhole, hfrac, readExponent_append h hr hsign]

/-- **A number is read as it was written.** -/
theorem read_spelling_append {l : Literal} (h : l.IsNumber) {rest : List Char}
    (hr : l.Stops rest) : read (l.spelling ++ rest) = l :=
  h.toIsPiece.read_spelling_append hr (h.stopsSign rest)

/-- A piece that stands alone is read as it was written. -/
theorem IsPiece.read_spelling {l : Literal} (h : l.IsPiece) : read l.spelling = l := by
  have hr : l.Stops [] := fun c hc => by cases hc
  have hsign : l.StopsSign [] := fun e _ _ _ c hc => by cases hc
  have hread := h.read_spelling_append hr hsign
  rwa [List.append_nil] at hread

/-! ## Where reading stops -/

theorem not_isDigit_head_digits {cs : List Char} {c : Char} (h : c ∈ (digits cs).2.head?) :
    isDigit c = false := eq_false_of_mem_head_dropWhile h

theorem readFraction_stops {cs : List Char} {c : Char} (h : c ∈ (readFraction cs).2.head?) :
    ((readFraction cs).1 = none → (readFraction cs).2 = cs ∧ c ≠ '.') ∧
      ((readFraction cs).1 ≠ none → isDigit c = false) := by
  unfold readFraction at h ⊢
  split at h
  · exact ⟨fun hn => (nomatch hn), fun _ => not_isDigit_head_digits h⟩
  · next hcs =>
    refine ⟨fun _ => ⟨rfl, ?_⟩, fun hn => absurd rfl hn⟩
    rintro rfl
    obtain ⟨ds, rfl⟩ := List.head?_eq_some_iff.mp h
    exact hcs ds rfl

theorem readExponent_stops {cs rest : List Char} {c : Char}
    (h : exponentSpelling (readExponent cs) ++ rest = cs) (hc : c ∈ rest.head?) :
    (readExponent cs = none → rest = cs ∧ c ≠ 'e' ∧ c ≠ 'E') ∧
      (readExponent cs ≠ none → isDigit c = false) := by
  unfold readExponent at h ⊢
  split at h
  · next d cs =>
    split at h
    · next hd =>
      refine ⟨?_, ?_⟩
      · intro hn
        rw [if_pos hd] at hn
        cases hn
      · intro _
        have hrest : (digits (readSign cs).2).1 ++ rest = (readSign cs).2 := by
          have h' : d :: ((readSign cs).1.toList ++ (digits (readSign cs).2).1) ++ rest
              = d :: cs := h
          rw [List.cons_append, List.append_assoc] at h'
          refine (List.append_right_inj (readSign cs).1.toList).mp ?_
          rw [(readSign_spec cs).1]
          exact (List.cons.inj h').2
        have := List.append_cancel_left (hrest.trans (digits_fst_append_snd _).symm)
        exact not_isDigit_head_digits (this ▸ hc)
    · next hd =>
      have hrest : rest = d :: cs := h
      rw [hrest] at hc
      cases hc
      exact ⟨fun _ => ⟨hrest, not_or.mp hd⟩, fun hn => absurd (if_neg hd) hn⟩
  · have hrest : rest = [] := h
    rw [hrest] at hc
    cases hc

/-- **Reading stops where nothing goes on with what was read.** -/
theorem stops_read {cs rest : List Char} (h : (read cs).spelling ++ rest = cs) :
    (read cs).Stops rest := by
  intro c hc
  -- what follows the exponent, the fraction and the first digits
  have hexp : exponentSpelling (readExponent (readFraction (digits cs).2).2) ++ rest
      = (readFraction (digits cs).2).2 := by
    refine (List.append_right_inj (fractionSpelling (readFraction (digits cs).2).1)).mp ?_
    rw [(readFraction_spec _).1]
    refine (List.append_right_inj (digits cs).1).mp ?_
    rw [digits_fst_append_snd]
    rw [spelling_eq, List.append_assoc, List.append_assoc] at h
    exact h
  obtain ⟨h1, h2⟩ := readExponent_stops hexp hc
  by_cases he : readExponent (readFraction (digits cs).2).2 = none
  · obtain ⟨hrest, hmarker⟩ := h1 he
    rw [hrest] at hc
    obtain ⟨h3, h4⟩ := readFraction_stops hc
    refine ⟨?_, fun _ => ⟨hmarker, fun hf => (h3 hf).2⟩⟩
    by_cases hf : (readFraction (digits cs).2).1 = none
    · rw [(h3 hf).1] at hc
      exact not_isDigit_head_digits hc
    · exact h4 hf
  · exact ⟨h2 he, fun hn => absurd hn he⟩

/-- A piece is known by its spelling. -/
theorem eq_of_spelling_eq {l l' : Literal} (h : l.IsPiece) (h' : l'.IsPiece)
    (hs : l.spelling = l'.spelling) : l = l' := by
  rw [← h.read_spelling, hs, h'.read_spelling]

/-- A number begins with a digit or a point. -/
theorem exists_spelling_eq_cons {l : Literal} (h : l.IsNumber) :
    ∃ c cs, l.spelling = c :: cs ∧ startsNumber c = true := by
  rw [spelling_eq]
  cases hw : l.whole with
  | cons c cs =>
    have hc := h.whole c (by rw [hw]; exact List.mem_cons_self)
    exact ⟨c, _, rfl, by simp [startsNumber, hc]⟩
  | nil =>
    cases hf : l.fraction with
    | none => exact absurd hf (h.mantissa_ne.resolve_left (not_not_intro hw))
    | some ds => exact ⟨'.', _, rfl, by decide⟩

end Literal

/-- **A cursor reads the number that stands there.** -/
theorem Cursor.readNumber_spelling {l : Literal} (h : l.IsNumber)
    (hv : l.value.isInfinite = false) (pos : Nat) {rest : List Char} (hr : l.Stops rest) :
    Cursor.readNumber ⟨pos, l.spelling ++ rest⟩
      = .ok (l.value, ⟨pos + l.spelling.length, rest⟩) := by
  have hfault := (Literal.fault?_eq_none_iff h.toIsPiece).mpr ⟨h, hv⟩
  unfold Cursor.readNumber
  simp only [Literal.read_spelling_append h hr, hfault]
  rw [Cursor.advance]
  simp only [List.drop_left]

/-- **A number that a cursor reads stands there.** -/
theorem Cursor.exists_of_readNumber {c c' : Cursor} {v : Double}
    (h : c.readNumber = .ok (v, c')) :
    ∃ l : Literal, l.IsNumber ∧ l.value.isInfinite = false ∧ v = l.value ∧
      c.rest = l.spelling ++ c'.rest ∧ l.Stops c'.rest := by
  unfold Cursor.readNumber at h
  simp only at h
  split at h
  · cases h
  · next hf =>
    obtain ⟨hn, hv⟩ := (Literal.fault?_eq_none_iff (Literal.isPiece_read c.rest)).mp hf
    cases h
    have hrest := Literal.spelling_read_append_drop c.rest
    exact ⟨_, hn, hv, rfl, hrest.symm, Literal.stops_read hrest⟩

end Formula
