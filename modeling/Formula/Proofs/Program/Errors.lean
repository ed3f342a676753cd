import Formula.Proofs.Grammar.Brackets
import Formula.Proofs.Program.Translation
import Formula.Proofs.Token.Longest
import Formula.Proofs.Token.Reading

/-!
# Where a text is refused

An error shows the earliest place where it can be seen that the text is no formula. What stands
before the place can always be completed: one operand if one is expected, and then as many close
brackets as there are brackets open (`exists_isReading_take`). And where a character is refused, no
formula has that character there after the same beginning, because what is read before it is the
same in both (`not_isReading_of_refused`).

Brackets that are not closed are missed only at the end of the text. There as many are missing as
are open, no more and no less (`isReading_closeBrackets_iff`).
-/

namespace Formula

/-! ## What is wrong -/

/-- What is wrong at the place `c`, where the yard `y` holds what was taken before. -/
inductive Refused : Expected → Cursor → Yard → CompileError → Prop where
  | number {c y error} : c.readToken .operand = .error error → Refused .operand c y error
  | operand {c y} : c.readToken .operand = .ok (none, c.skipSpaces) →
    Refused .operand c y (c.skipSpaces.error .operandExpected c.skipSpaces.rest.length)
  | input {c y} : c.readToken .operator = .ok (none, c.skipSpaces) → c.skipSpaces.rest ≠ [] →
    Refused .operator c y (c.skipSpaces.error .unexpectedInput c.skipSpaces.rest.length)
  | missing {c y} : c.skipSpaces.rest = [] → Yard.openCount y.pending ≠ 0 →
    Refused .operator c y (c.skipSpaces.error .missingCloseBracket 0)
  | bracket {c d y} : c.readToken .operator = .ok (some .closeBracket, d) →
    Yard.openCount y.pending = 0 →
    Refused .operator c y
      ⟨.unmatchedCloseBracket, c.skipSpaces.pos, c.skipSpaces.pos + 1, some ")"⟩

/-- What is wrong within a literal is none of what is wrong between tokens. -/
theorem Literal.cause_ne_of_fault? {l : Literal} {cause : CompileError.Cause} {n : Nat}
    (h : l.fault? = some (cause, n)) :
    ¬(cause = .operandExpected ∨ cause = .unexpectedInput ∨ cause = .unmatchedCloseBracket) ∧
      cause ≠ .missingCloseBracket := by
  unfold fault? at h
  split at h
  · cases h; simp
  split at h
  · cases h; simp
  split at h
  · cases h; simp
  split at h
  · cases h; simp
  · cases h

theorem Cursor.exists_of_readToken_eq_error {c : Cursor} {e : Expected} {error : CompileError}
    (h : c.readToken e = .error error) :
    e = .operand ∧ error.start = c.skipSpaces.pos ∧
      ∃ (l : Literal) (n : Nat), l.fault? = some (error.cause, n) := by
  cases e with
  | operator => cases h
  | operand =>
    obtain ⟨ch, cs, -, -, hread⟩ := readNumber_of_operandToken_eq_error h
    obtain ⟨n, hfault, herror⟩ := exists_of_readNumber_eq_error hread
    refine ⟨rfl, ?_, _, n, hfault⟩
    rw [herror]
    rfl

/-- Where a close bracket is read, it stands behind the spaces. -/
theorem Cursor.rest_of_closeBracket {c d : Cursor} {e : Expected}
    (h : c.readToken e = .ok (some .closeBracket, d)) : c.skipSpaces.rest = ')' :: d.rest := by
  obtain ⟨-, ⟨word, hword, hlead⟩, -, -⟩ := leads_readToken h
  cases hword
  exact hlead

/-- An error starts behind the spaces at its place. -/
theorem Refused.start_eq {e : Expected} {c : Cursor} {y : Yard} {error : CompileError}
    (h : Refused e c y error) : error.start = c.skipSpaces.pos := by
  cases h with
  | number h => exact (Cursor.exists_of_readToken_eq_error h).2.1
  | operand _ | input _ _ | missing _ _ | bracket _ _ => rfl

/-! ## The place -/

namespace Yard

theorem exists_of_run_eq_error {y y' : Yard} {ls : List Located} {error : CompileError}
    (h : y.run ls = (y', some error)) :
    ∃ ls₁ t ls₂, ls = ls₁ ++ t :: ls₂ ∧ y.takeAll (ls₁.map Located.token) = some y' ∧
      y'.take t.token = none ∧
      error = ⟨.unmatchedCloseBracket, t.start, t.start + 1, some ")"⟩ := by
  induction ls generalizing y with
  | nil => cases h
  | cons t ls ih =>
    rw [run, step] at h
    cases ht : y.take t.token with
    | none =>
      rw [ht] at h
      cases h
      exact ⟨[], t, ls, rfl, rfl, ht, rfl⟩
    | some z =>
      rw [ht] at h
      obtain ⟨ls₁, u, ls₂, rfl, htake, hnone, herror⟩ := ih h
      refine ⟨t :: ls₁, u, ls₂, rfl, ?_, hnone, herror⟩
      rw [List.map_cons, takeAll, ht]
      exact htake

end Yard

/-- **Each error has its place.** -/
theorem Ordered.exists_refused {text : String} {error : CompileError}
    (h : (ofText text).result = .error error) :
    ∃ ls e c y, Reads .operand (Cursor.ofText text 0) ls e c ∧
      Yard.start.takeAll (ls.map Located.token) = some y ∧ Refused e c y error := by
  unfold ofText at h
  split at h
  · -- a close bracket without an open one
    next y error' hrun =>
    cases h
    obtain ⟨ls, t, us, hlist, htake, hnone, rfl⟩ := Yard.exists_of_run_eq_error hrun
    obtain ⟨e, c, hreads, hus⟩ := Reads.exists_of_list hlist
    refine ⟨ls, e, c, y, hreads, htake, ?_⟩
    rcases hc : c.readToken e with error | ⟨_ | u, d⟩
    · rw [Tokens.read_error hc] at hus
      cases hus
    · rw [Tokens.read_none hc] at hus
      cases hus
    · rw [Tokens.read_some hc] at hus
      cases hus
      obtain ⟨rfl, hzero⟩ := Yard.take_eq_none hnone
      have hfits := (Cursor.leads_readToken hc).fits
      cases e with
      | operand => cases hfits
      | operator => exact .bracket hc hzero
  · next y hrun =>
    have htake := Yard.takeAll_of_run hrun
    have hlist : (Tokens.ofText text).list = (Tokens.ofText text).list ++ [] :=
      (List.append_nil _).symm
    obtain ⟨e, c, hreads, hnil⟩ := Reads.exists_of_list hlist
    have hending := congrArg Tokens.ending hreads.read_eq
    refine ⟨_, e, c, y, hreads, htake, ?_⟩
    rw [show (Tokens.ofText text).ending = _ from hending] at h
    rcases hc : c.readToken e with error' | ⟨_ | u, d⟩
    · rw [Tokens.read_error hc] at h
      cases h
      obtain ⟨rfl, -⟩ := Cursor.exists_of_readToken_eq_error hc
      exact .number hc
    · rw [Tokens.read_none hc] at h
      obtain rfl := Cursor.readToken_none hc
      cases e with
      | operand => cases h; exact .operand hc
      | operator =>
        simp only [Yard.finish] at h
        split at h
        · next hrest => cases h; exact .input hc hrest
        · next hrest =>
          split at h
          · cases h
          · next hall =>
            cases h
            refine .missing (Classical.not_not.mp hrest) ?_
            exact Yard.operators_eq_none_iff.mp (Option.map_eq_none_iff.mp hall)
    · rw [Tokens.read_some hc] at hnil
      cases hnil

/-- **Each place where something is wrong has its error**, and what was taken before is released. -/
theorem Ordered.ofText_of_refused {text : String} {ls : List Located} {e : Expected} {c : Cursor}
    {y : Yard} {error : CompileError} (hreads : Reads .operand (Cursor.ofText text 0) ls e c)
    (hy : Yard.start.takeAll (ls.map Located.token) = some y) (h : Refused e c y error) :
    ofText text = ⟨y.released, .error error⟩ := by
  have hread : Tokens.ofText text = ⟨ls ++ (Tokens.read e c).list, (Tokens.read e c).ending⟩ :=
    hreads.read_eq
  -- only the close bracket is refused as a token
  have hstops : ∀ {ending}, Tokens.read e c = ⟨[], ending⟩ → y.finish ending = .error error →
      ofText text = ⟨y.released, .error error⟩ := by
    intro ending hnil hfinish
    rw [hnil] at hread
    unfold ofText
    simp only [hread, Yard.run_append _ hy, Yard.run, hfinish]
  cases h with
  | number herror => exact hstops (Tokens.read_error herror) rfl
  | operand hnone => exact hstops (Tokens.read_none hnone) rfl
  | input hnone hrest =>
    refine hstops (Tokens.read_none hnone) ?_
    rw [Yard.finish, if_pos hrest]
  | missing hrest hopen =>
    have hnone : c.readToken .operator = .ok (none, c.skipSpaces) := by
      rw [Cursor.readToken, Cursor.operatorToken, hrest]
    refine hstops (Tokens.read_none hnone) ?_
    have hall : y.all = none := Option.map_eq_none_iff.mpr (Yard.operators_eq_none_iff.mpr hopen)
    rw [Yard.finish, if_neg (not_not_intro hrest), hall]
  | bracket hbracket hzero =>
    have hnone : y.take .closeBracket = none :=
      Option.map_eq_none_iff.mpr (Yard.splitBracket_eq_none_iff.mpr hzero)
    rw [Tokens.read_some hbracket] at hread
    unfold ofText
    simp only [hread, Yard.run_append _ hy, Yard.run, Yard.step, hnone]

/-! ## What stands before the place -/

theorem splits_closeBrackets (n : Nat) :
    Splits (List.replicate n ')') (List.replicate n .closeBracket) := by
  induction n with
  | zero => exact .nil fun c hc => by cases hc
  | succ n ih =>
    show Splits ([] ++ [')'] ++ List.replicate n ')') (.closeBracket :: _)
    exact .cons nofun .closeBracket nofun ih

theorem not_isLetter_head_closeBrackets (n : Nat) :
    ∀ c ∈ (List.replicate n ')').head?, isLetter c = false := by
  cases n with
  | zero => nofun
  | succ n => rintro _ ⟨⟩; decide

/-- The literal `1`. -/
def Literal.one : Literal := ⟨['1'], none, none⟩

theorem Literal.isNumber_one : Literal.one.IsNumber where
  whole c hc := by rw [List.mem_singleton.mp hc]; decide
  fraction := nofun
  marker := nofun
  sign := nofun
  exponent := nofun
  mantissa_ne := .inl (List.cons_ne_nil _ _)
  fraction_ne := nofun
  exponent_ne := nofun

theorem Literal.isInfinite_value_one : Literal.one.value.isInfinite = false := by
  decide +kernel

namespace Reads

variable {text : String} {ls : List Located} {e : Expected} {c : Cursor} {y : Yard}

/-- The characters that were read, and the spaces behind them. -/
theorem exists_split (h : Reads .operand (Cursor.ofText text 0) ls e c) :
    ∃ cs blanks, (∀ ch ∈ blanks, ch = ' ') ∧ text.toList = cs ++ c.rest ∧
      c.rest = blanks ++ c.skipSpaces.rest ∧ c.pos = cs.length ∧
      c.skipSpaces.pos = (cs ++ blanks).length := by
  obtain ⟨cs, hcs, hpos⟩ := h.exists_append
  obtain ⟨blanks, hb, hrest, hskip⟩ := Tokens.exists_blanks c
  replace hpos : c.pos = cs.length := hpos.trans (Nat.zero_add _)
  exact ⟨cs, blanks, hb, hcs, hrest, hpos, by rw [hskip, hpos, List.length_append]⟩

/-- What stands before a place with other characters behind it, and how it splits. -/
theorem splits_append (h : Reads .operand (Cursor.ofText text 0) ls e c) {more : List Char}
    {us : List Token} (hmore : Splits more us) (hl : ∀ ch ∈ more.head?, isLetter ch = false) :
    Splits (text.toList.take c.skipSpaces.pos ++ more) (ls.map Located.token ++ us) := by
  obtain ⟨cs, blanks, hb, hcs, hrest, -, hpos⟩ := h.exists_split
  have htake : text.toList.take c.skipSpaces.pos = cs ++ blanks := by
    rw [hpos, hcs, hrest, ← List.append_assoc]
    exact List.take_left
  rw [htake, List.append_assoc]
  refine h.splits hcs (hmore.blanks hb) ?_
  intro ch hch
  rcases blanks with _ | ⟨b, blanks⟩
  · exact hl ch hch
  · obtain rfl : b = ch := Option.some.inj hch
    rw [hb b List.mem_cons_self]
    decide

theorem splits_take (h : Reads .operand (Cursor.ofText text 0) ls e c) :
    Splits (text.toList.take c.skipSpaces.pos) (ls.map Located.token) := by
  have hsplits := h.splits_append (.nil nofun : Splits [] []) nofun
  rwa [List.append_nil, List.append_nil] at hsplits

/-- Nothing stands behind a place with only spaces from there on. -/
theorem take_of_rest_eq_nil (h : Reads .operand (Cursor.ofText text 0) ls e c)
    (hrest : c.skipSpaces.rest = []) : text.toList.take c.skipSpaces.pos = text.toList := by
  obtain ⟨cs, blanks, -, hcs, hblanks, -, hpos⟩ := h.exists_split
  refine List.take_of_length_le (Nat.le_of_eq ?_)
  rw [hpos, hcs, hblanks, hrest, List.append_nil]

/-- **What stands before a place can be completed.** -/
theorem exists_isReading_take (h : Reads .operand (Cursor.ofText text 0) ls e c)
    (hy : Yard.start.takeAll (ls.map Located.token) = some y) :
    ∃ more t, IsReading (String.ofList (text.toList.take c.skipSpaces.pos ++ more)) t := by
  have hbeginning : Beginning e (Yard.openCount y.pending) (ls.map Located.token) :=
    Yard.beginning_takeAll .nil h.through hy
  cases e with
  | operator =>
    obtain ⟨t, ht⟩ := hbeginning.closeAll
    refine ⟨List.replicate (Yard.openCount y.pending) ')', t, _, ?_, ht⟩
    rw [String.toList_ofList]
    exact h.splits_append (splits_closeBrackets _) (not_isLetter_head_closeBrackets _)
  | operand =>
    -- a number first
    obtain ⟨t, ht⟩ := (hbeginning.atom (.number Literal.one.value)).closeAll
    rw [List.append_assoc] at ht
    refine ⟨[] ++ Literal.one.spelling ++ List.replicate (Yard.openCount y.pending) ')', t, _, ?_,
      ht⟩
    rw [String.toList_ofList]
    refine h.splits_append ?_ (by rintro _ ⟨⟩; decide)
    exact .cons nofun (.number Literal.isNumber_one Literal.isInfinite_value_one) nofun
      (splits_closeBrackets _)

end Reads

/-! ## What stands at the place -/

/-- How a formula goes on behind what was read of it. -/
theorem IsReading.exists_of_reads {text : String} {t : Tree} (ht : IsReading text t)
    {ls : List Located} {e : Expected} {c : Cursor}
    (h : Reads .operand (Cursor.ofText text 0) ls e c) :
    (∃ p, (Tokens.read e c).ending = .stopped .operator ⟨p, []⟩) ∧
      ∃ y, Yard.start.takeAll (ls.map Located.token
        ++ (Tokens.read e c).list.map Located.token) = some y := by
  obtain ⟨us, hsplits, hphrase⟩ := ht
  obtain ⟨hlist, p, hending⟩ := Tokens.read_splits hsplits hphrase.through 0
  obtain ⟨rs, os, htake, -⟩ := Yard.takes_phrase hphrase [] [] (Yard.steady_nil _)
  have hread := h.read_eq
  rw [show Tokens.read .operand (Cursor.ofText text 0) = Tokens.read .operand ⟨0, text.toList⟩
    from rfl] at hread
  rw [hread] at hlist hending
  refine ⟨⟨p, hending⟩, ⟨[] ++ rs, os.map .op ++ []⟩, ?_⟩
  rw [← List.map_append]
  exact hlist ▸ htake

/-- **A character that is refused is refused in all texts** that are the same up to there. -/
theorem not_isReading_of_refused {text other : String} {ls : List Located} {e : Expected}
    {c : Cursor} {y : Yard} {error : CompileError}
    (hreads : Reads .operand (Cursor.ofText text 0) ls e c)
    (hy : Yard.start.takeAll (ls.map Located.token) = some y) (h : Refused e c y error)
    (hcause : error.cause = .operandExpected ∨ error.cause = .unexpectedInput ∨
      error.cause = .unmatchedCloseBracket)
    (hlt : c.skipSpaces.pos < text.length)
    (hother : text.toList.take (c.skipSpaces.pos + 1) <+: other.toList) (t : Tree) :
    ¬IsReading other t := by
  intro ht
  obtain ⟨cs, blanks, hb, hcs, hrest, hpos, hskip⟩ := hreads.exists_split
  have htext : text.toList = cs ++ blanks ++ c.skipSpaces.rest := by
    rw [hcs, hrest, List.append_assoc]
  -- the character, and what stands behind it in the other text
  obtain ⟨ch, r, hch⟩ : ∃ ch r, c.skipSpaces.rest = ch :: r := by
    refine List.exists_cons_of_ne_nil fun hnil => ?_
    rw [hnil, List.append_nil] at htext
    rw [hskip, ← htext] at hlt
    exact Nat.lt_irrefl _ hlt
  obtain ⟨tail, htail⟩ := hother
  have hothers : other.toList = cs ++ (blanks ++ ch :: tail) := by
    rw [← htail, htext, hch, hskip, List.take_length_add_append]
    simp
  have hreads' : Reads .operand (Cursor.ofText other 0) ls e ⟨c.pos, blanks ++ ch :: tail⟩ := by
    have hhead : (blanks ++ ch :: tail).head? = c.rest.head? := by
      rw [hrest, hch, List.head?_append, List.head?_append]
      rfl
    have := hreads.congr hcs hhead
    rw [← hothers] at this
    exact this
  obtain ⟨⟨p, hending⟩, y', hy'⟩ := ht.exists_of_reads hreads'
  cases h with
  | number herror =>
    obtain ⟨-, -, l, n, hfault⟩ := Cursor.exists_of_readToken_eq_error herror
    exact (Literal.cause_ne_of_fault? hfault).1 hcause
  | operand hnone =>
    rw [Tokens.read_none (Cursor.readToken_none_congr hnone hch hb _ tail)] at hending
    cases hending
  | input hnone _ =>
    rw [Tokens.read_none (Cursor.readToken_none_congr hnone hch hb _ tail)] at hending
    cases hending
  | missing hnil _ => rw [hch] at hnil; cases hnil
  | bracket hbracket hzero =>
    have hlead := Cursor.rest_of_closeBracket hbracket
    rw [hch] at hlead
    obtain rfl : ch = ')' := (List.cons.inj hlead).1
    have hread : (Cursor.mk c.pos (blanks ++ ')' :: tail)).readToken .operator
        = .ok (some .closeBracket, ⟨c.pos + blanks.length + 1, tail⟩) := by
      rw [show blanks ++ ')' :: tail = blanks ++ [')'] ++ tail by simp]
      exact Cursor.readToken_spelled c.pos hb .closeBracket rfl nofun nofun
    rw [Tokens.read_some hread, List.map_cons, Yard.takeAll_append _ hy, Yard.takeAll] at hy'
    have hnone : y.take .closeBracket = none :=
      Option.map_eq_none_iff.mpr (Yard.splitBracket_eq_none_iff.mpr hzero)
    rw [hnone] at hy'
    cases hy'

/-! ## Brackets that are not closed -/

theorem through_closeBrackets (k : Nat) :
    Expected.operator.through (List.replicate k .closeBracket) = some .operator := by
  induction k with
  | zero => rfl
  | succ k ih => exact ih

section

variable {text : String} {ls : List Located} {c : Cursor} {y : Yard}
  (hreads : Reads .operand (Cursor.ofText text 0) ls .operator c) (hrest : c.skipSpaces.rest = [])
  (hy : Yard.start.takeAll (ls.map Located.token) = some y)

include hreads hrest

/-- A text that is read to its end, with close brackets behind it. -/
theorem splits_closeBrackets_of_reads (k : Nat) :
    Splits (text ++ String.ofList (List.replicate k ')')).toList
      (ls.map Located.token ++ List.replicate k .closeBracket) := by
  have := hreads.splits_append (splits_closeBrackets k) (not_isLetter_head_closeBrackets k)
  rwa [hreads.take_of_rest_eq_nil hrest, ← String.toList_ofList (l := List.replicate k ')'),
    ← String.toList_append] at this

include hy

/-- **As many close brackets are missing as brackets are open.** -/
theorem isReading_closeBrackets_iff (k : Nat) :
    (∃ t, IsReading (text ++ String.ofList (List.replicate k ')')) t)
      ↔ k = Yard.openCount y.pending := by
  have hsplits := splits_closeBrackets_of_reads hreads hrest k
  constructor
  · rintro ⟨t, us, hus, hphrase⟩
    -- the text has one row of tokens
    have hthrough : Expected.operand.through
        (ls.map Located.token ++ List.replicate k .closeBracket) = some .operator := by
      rw [Expected.through_append, hreads.through]
      exact through_closeBrackets k
    obtain rfl := (Tokens.read_splits hus hphrase.through 0).1.symm.trans
      (Tokens.read_splits hsplits hthrough 0).1
    obtain ⟨z, hz, hall⟩ := Option.bind_eq_some_iff.mp (Yard.order_phrase hphrase)
    rw [Yard.takeAll_append _ hy] at hz
    obtain ⟨os, hos, -⟩ := Option.map_eq_some_iff.mp hall
    have := Yard.openCount_of_takeAll_closeBrackets hz
    rw [Yard.openCount_of_operators hos] at this
    omega
  · rintro rfl
    have hbeginning : Beginning .operator (Yard.openCount y.pending) (ls.map Located.token) :=
      Yard.beginning_takeAll .nil hreads.through hy
    obtain ⟨t, ht⟩ := hbeginning.closeAll
    exact ⟨t, _, hsplits, ht⟩

/-- The brackets that wait are those that the text leaves open. -/
theorem unmatchedBrackets_eq : unmatchedBrackets text.toList = Yard.openCount y.pending := by
  have hsplits := splits_closeBrackets_of_reads hreads hrest 0
  have htext : text ++ String.ofList (List.replicate 0 ')') = text := by simp
  rw [htext, List.replicate_zero, List.append_nil] at hsplits
  exact Yard.foldl_depthAfter_of_splits hsplits hy

end

/-! ## Errors -/

/--
**An error shows the earliest place.**

The text before the place can be completed to a formula. If a character is refused there, no text
that is the same up to it and with it is a formula. If brackets are not closed, the text becomes a
formula with as many close brackets behind it as it leaves open, and with no other number of them.
-/
theorem compile_error_earliest (F : Folding) (text : String) (table : Table) {error : CompileError}
    (h : (compile F text table).program = .error error) :
    (∃ more p, (compile F (String.ofList (text.toList.take error.start ++ more)) table).program
        = .ok p) ∧
      (error.cause = .operandExpected ∨ error.cause = .unexpectedInput ∨
          error.cause = .unmatchedCloseBracket →
        error.start < text.length →
          ∀ other : String, text.toList.take (error.start + 1) <+: other.toList →
            ∀ p, (compile F other table).program ≠ .ok p) ∧
      (error.cause = .missingCloseBracket →
        ∀ k, (∃ p, (compile F (text ++ String.ofList (List.replicate k ')')) table).program
          = .ok p) ↔ k = unmatchedBrackets text.toList) := by
  have compiles : ∀ text : String,
      (∃ p, (compile F text table).program = .ok p) ↔ ∃ t, IsReading text t := fun text =>
    ⟨fun ⟨_, hp⟩ => exists_isReading_of_compile table hp,
      fun ⟨_, ht⟩ => ⟨_, program_compile_of_isReading table F ht⟩⟩
  obtain ⟨ls, e, c, y, hreads, hy, hrefused⟩ :=
    Ordered.exists_refused (program_compile_eq_error_iff.mp h)
  rw [hrefused.start_eq]
  refine ⟨?_, ?_, ?_⟩
  · obtain ⟨more, t, ht⟩ := hreads.exists_isReading_take hy
    obtain ⟨p, hp⟩ := (compiles _).mpr ⟨t, ht⟩
    exact ⟨more, p, hp⟩
  · intro hcause hlt other hother p hp
    obtain ⟨t, ht⟩ := (compiles other).mp ⟨p, hp⟩
    exact not_isReading_of_refused hreads hy hrefused hcause hlt hother t ht
  · intro hcause k
    rw [compiles]
    cases hrefused with
    | missing hrest _ =>
      rw [unmatchedBrackets_eq hreads hrest hy]
      exact isReading_closeBrackets_iff hreads hrest hy k
    | number herror =>
      obtain ⟨-, -, l, n, hfault⟩ := Cursor.exists_of_readToken_eq_error herror
      exact absurd hcause (Literal.cause_ne_of_fault? hfault).2
    | operand _ | input _ _ | bracket _ _ => cases hcause

/-- An operand that is missing before a close bracket, and two close brackets that are missing. -/
theorem compile_error_earliest_brackets :
    ((compile ⟨.standard, true⟩ "2*(x - )" .withConstants).program
          = .error ⟨.operandExpected, 7, 8, some ")"⟩ ∧
        (∃ more p, (compile ⟨.standard, true⟩
          (String.ofList ("2*(x - )".toList.take 7 ++ more)) .withConstants).program = .ok p) ∧
        ∀ other : String, "2*(x - )".toList.take 8 <+: other.toList →
          ∀ p, (compile ⟨.standard, true⟩ other .withConstants).program ≠ .ok p) ∧
      (compile ⟨.standard, true⟩ "2*((x - 1" .withConstants).program
          = .error ⟨.missingCloseBracket, 9, 9, none⟩ ∧
        ∀ k, (∃ p, (compile ⟨.standard, true⟩
          ("2*((x - 1" ++ String.ofList (List.replicate k ')')) .withConstants).program
            = .ok p) ↔ k = 2 := by
  have hoperand : (compile ⟨.standard, true⟩ "2*(x - )" .withConstants).program
      = .error ⟨.operandExpected, 7, 8, some ")"⟩ := by
    decide +kernel
  have hbrackets : (compile ⟨.standard, true⟩ "2*((x - 1" .withConstants).program
      = .error ⟨.missingCloseBracket, 9, 9, none⟩ := by
    decide +kernel
  obtain ⟨hmore, hother, -⟩ := compile_error_earliest _ _ _ hoperand
  obtain ⟨-, -, hclose⟩ := compile_error_earliest _ _ _ hbrackets
  exact ⟨⟨hoperand, hmore, hother (.inl rfl) (by decide)⟩, hbrackets, hclose rfl⟩

end Formula
