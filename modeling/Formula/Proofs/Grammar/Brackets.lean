import Formula.Proofs.Grammar.Yard
import Formula.Proofs.Token.Splitting

/-!
# Open brackets of a text

How many brackets are open can be counted in the characters of a text, without reading tokens: no
token but a bracket has a bracket in it. So the count is that of the brackets that wait
(`foldl_depthAfter_of_splits`).
-/

namespace Formula

/-! ## Counting -/

/-- How many brackets are open behind a character; a close bracket closes one if there is one. -/
def depthAfter (n : Nat) (c : Char) : Nat :=
  if c = '(' then n + 1 else if c = ')' then n - 1 else n

/-- The number of open brackets that no close bracket matches. -/
def unmatchedBrackets (cs : List Char) : Nat := cs.foldl depthAfter 0

theorem foldl_depthAfter_of_ne {cs : List Char} (h : ∀ c ∈ cs, c ≠ '(' ∧ c ≠ ')') (n : Nat) :
    cs.foldl depthAfter n = n := by
  induction cs with
  | nil => rfl
  | cons c cs ih =>
    obtain ⟨h1, h2⟩ := h c List.mem_cons_self
    rw [List.foldl_cons, depthAfter, if_neg h1, if_neg h2]
    exact ih fun d hd => h d (List.mem_cons_of_mem c hd)

/-- Characters in which each bracket has its match. -/
inductive Balanced : List Char → Prop where
  | nil : Balanced []
  | other {c cs} : c ≠ '(' → c ≠ ')' → Balanced cs → Balanced (c :: cs)
  | pair {cs ds} : Balanced cs → Balanced ds → Balanced ('(' :: cs ++ ')' :: ds)

/-- They leave no bracket open and close none that was. -/
theorem Balanced.foldl_depthAfter {cs : List Char} (h : Balanced cs) (n : Nat) :
    cs.foldl depthAfter n = n := by
  induction h generalizing n with
  | nil => rfl
  | other hopen hclose _ ih => simp [depthAfter, hopen, hclose, ih]
  | pair _ _ ihc ihd => simp [depthAfter, ihc, ihd]

/-- Where no bracket is open, none has its match. -/
theorem not_balanced_of_unmatchedBrackets_eq_zero {cs before inside : List Char}
    (h : unmatchedBrackets cs = 0) (hcs : cs = before ++ '(' :: inside) : ¬Balanced inside := by
  intro hinside
  rw [unmatchedBrackets, hcs, List.foldl_append, List.foldl_cons, hinside.foldl_depthAfter] at h
  cases h

/-! ## Tokens without brackets -/

/-- A kind of characters that has no brackets in it. -/
theorem ne_bracket_of {p : Char → Bool} (hopen : p '(' = false) (hclose : p ')' = false)
    {c : Char} (h : p c) : c ≠ '(' ∧ c ≠ ')' := by
  refine ⟨?_, ?_⟩
  · rintro rfl
    simp [hopen] at h
  · rintro rfl
    simp [hclose] at h

theorem ne_bracket_of_isLetter {c : Char} (h : isLetter c) : c ≠ '(' ∧ c ≠ ')' :=
  ne_bracket_of (by decide) (by decide) h

theorem ne_bracket_of_isDigit {c : Char} (h : isDigit c) : c ≠ '(' ∧ c ≠ ')' :=
  ne_bracket_of (by decide) (by decide) h

theorem Literal.IsPiece.ne_bracket {l : Literal} (h : l.IsPiece) :
    ∀ c ∈ l.spelling, c ≠ '(' ∧ c ≠ ')' := by
  intro c hc
  rcases h.char_of_mem hc with hdigit | hmem
  · exact ne_bracket_of_isDigit hdigit
  · refine ⟨?_, ?_⟩ <;> rintro rfl <;> exact absurd hmem (by decide)

/-! ## Counting along tokens -/

namespace Yard

/-- **One token.** -/
theorem foldl_depthAfter_of_spelled {t : Token} {word : List Char} {y y' : Yard}
    (h : t.Spelled word) (hy : y.take t = some y') :
    word.foldl depthAfter (openCount y.pending) = openCount y'.pending := by
  have hop : ∀ o : Op, t = .op o → openCount y'.pending = openCount y.pending := by
    rintro o rfl
    cases hy
    rw [← openCount_splitPreceding o y.pending]
    simp [openCount]
  cases h with
  | number hl _ => cases hy; exact foldl_depthAfter_of_ne hl.ne_bracket _
  | name _ hcs _ =>
    cases hy
    exact foldl_depthAfter_of_ne (fun c hc => ne_bracket_of_isLetter (hcs c hc)) _
  | call f =>
    rw [hop _ rfl]
    exact foldl_depthAfter_of_ne
      (fun c hc => ne_bracket_of_isLetter (f.isLetter_of_mem_symbol c hc)) _
  | plus | minus | factorial => exact (hop _ rfl).symm
  | binary b =>
    rw [hop _ rfl]
    refine foldl_depthAfter_of_ne (fun c hc => ?_) _
    rw [List.mem_singleton.mp hc]
    cases b <;> decide
  | openBracket => cases hy; exact List.count_cons_self.symm
  | closeBracket =>
    obtain ⟨s, hs, rfl⟩ := Option.map_eq_some_iff.mp hy
    rw [openCount_splitBracket hs]
    rfl

/-- **All tokens.** The brackets that wait are those that the characters leave open. -/
theorem foldl_depthAfter_of_splits {cs : List Char} {ts : List Token} (h : Splits cs ts)
    {y y' : Yard} (hy : y.takeAll ts = some y') :
    cs.foldl depthAfter (openCount y.pending) = openCount y'.pending := by
  have spaces : ∀ {blanks : List Char}, (∀ c ∈ blanks, c = ' ') → ∀ n,
      blanks.foldl depthAfter n = n := by
    intro blanks hb
    refine foldl_depthAfter_of_ne fun c hc => ?_
    rw [hb c hc]
    decide
  induction h generalizing y with
  | nil hb => cases hy; exact spaces hb _
  | cons hb hword _ _ ih =>
    obtain ⟨z, hz, hy⟩ := Option.bind_eq_some_iff.mp hy
    rw [List.foldl_append, List.foldl_append, spaces hb, foldl_depthAfter_of_spelled hword hz]
    exact ih hy

end Yard

end Formula
