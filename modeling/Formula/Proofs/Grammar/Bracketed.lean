import Formula.Proofs.Double.Layout
import Formula.Proofs.Token.Splitting

/-!
# Formulas with all brackets

A tree can be written down with a pair of brackets around each of its operators. Then no priority
has a say in how the formula is grouped: together with its brackets each part is an atom, which may
stand wherever an operand may stand (`Phrase.bracketed`). Spaces before the tokens keep words apart,
so the tokens are found again in the text (`splits_text`).
-/

namespace Formula

/-! ## Writing tokens -/

/-- The finite values with a clear sign bit are those with a finite magnitude and no sign. -/
theorem Double.isFinite_and_toBits_lt_iff {v : Double} :
    v.isFinite = true ∧ v.toBits < 2 ^ 63 ↔ ∃ m, m ≠ Magnitude.top ∧ v = .num false m := by
  constructor
  · rintro ⟨hfinite, hsign⟩
    cases v with
    | nan => cases hfinite
    | num neg m =>
      cases neg with
      | true =>
        simp only [toBits, if_true] at hsign
        omega
      | false => exact ⟨m, of_decide_eq_true hfinite, rfl⟩
  · rintro ⟨m, hm, rfl⟩
    have hplace := m.place_le
    refine ⟨decide_eq_true hm, ?_⟩
    simp only [toBits, Bool.false_eq_true, if_false]
    omega

namespace Token

/-- What a token must be to stand in a text: numbers are written without a sign, and names are words
of letters that are no functions. -/
def Readable : Token → Prop
  | .number v => v.isFinite = true ∧ v.toBits < 2 ^ 63
  | .name word =>
    word ≠ "" ∧ (∀ c ∈ word.toList, isLetter c) ∧ NamedFunction.ofWord? word = none
  | .op _ | .openBracket | .closeBracket => True

/-- The characters that a token is written with; for a number those of a result. -/
def spelling : Token → List Char
  | .number v => v.textWith Double.resultLayout
  | .name word => word.toList
  | .op o => o.symbol.toList
  | .openBracket => ['(']
  | .closeBracket => [')']

/-- Tokens with a space before each of them. -/
def text (ts : List Token) : String := String.ofList (ts.flatMap fun t => ' ' :: t.spelling)

theorem Spelled.readable {t : Token} {word : List Char} (h : t.Spelled word) : t.Readable := by
  cases h with
  | @number l _ hfinite =>
    exact Double.isFinite_and_toBits_lt_iff.mpr ⟨_, of_decide_eq_false hfinite, rfl⟩
  | @name cs hne hletters hfunction =>
    refine ⟨?_, ?_, NamedFunction.ofWord?_eq_none_iff.mpr hfunction⟩
    · rintro heq
      exact hne (by simpa using congrArg String.toList heq)
    · rwa [String.toList_ofList]
  | call _ | plus | minus | factorial | binary _ | openBracket | closeBracket => trivial

/-- **Whatever can stand in a text has a spelling.** -/
theorem Readable.spelled {t : Token} (h : t.Readable) : t.Spelled t.spelling := by
  cases t with
  | number v =>
    obtain ⟨m, hm, rfl⟩ := Double.isFinite_and_toBits_lt_iff.mp h
    obtain ⟨l, hl, hvalue, hspelling⟩ :=
      Double.exists_literal (l := Double.resultLayout) (by decide) hm
    have hfinite : l.value.isInfinite = false := by
      rw [hvalue]
      exact decide_eq_false hm
    rw [spelling, ← hspelling, ← hvalue]
    exact .number hl hfinite
  | name word =>
    obtain ⟨hne, hletters, hfunction⟩ := h
    have hspelled : Token.Spelled (.name (String.ofList word.toList)) word.toList := by
      refine .name (by simpa using hne) hletters ?_
      rw [String.ofList_toList]
      exact NamedFunction.ofWord?_eq_none_iff.mp hfunction
    rwa [String.ofList_toList] at hspelled
  | op o =>
    cases o with
    | unary u =>
      cases u with
      | plus => exact .plus
      | minus => exact .minus
      | factorial => exact .factorial
      | call f => exact .call f
    | binary b =>
      rw [spelling, Op.symbol, String.toList_singleton]
      exact .binary b
  | openBracket => exact .openBracket
  | closeBracket => exact .closeBracket

end Token

/-- The tokens that a text splits into can stand in one. -/
theorem Splits.readable {cs : List Char} {ts : List Token} (h : Splits cs ts) :
    ∀ t ∈ ts, t.Readable := by
  induction h with
  | nil _ => nofun
  | cons _ hword _ _ ih => exact List.forall_mem_cons.mpr ⟨hword.readable, ih⟩

/-- **Tokens with spaces before them are found again.** -/
theorem splits_text {ts : List Token} (h : ∀ t ∈ ts, t.Readable) :
    Splits (Token.text ts).toList ts := by
  rw [Token.text, String.toList_ofList]
  induction ts with
  | nil => exact .nil nofun
  | cons t ts ih =>
    show Splits ([' '] ++ t.spelling ++ ts.flatMap fun t => ' ' :: t.spelling) (t :: ts)
    refine .cons (fun c hc => List.mem_singleton.mp hc) (h t List.mem_cons_self).spelled ?_
      (ih fun u hu => h u (List.mem_cons_of_mem t hu))
    -- a word ends at the space of the next token
    intro _ c hc
    cases ts with
    | nil => cases hc
    | cons u ts =>
      obtain rfl : ' ' = c := Option.some.inj hc
      decide

/-! ## Bracketing trees -/

/-- The tokens of a tree, with brackets around each operator and its operands. -/
def Tree.bracketed : Tree → List Token
  | .number v => [.number v]
  | .name word => [.name word]
  | .unary .factorial t => .openBracket :: (t.bracketed ++ [.op (.unary .factorial)])
      ++ [.closeBracket]
  | .unary u t => .openBracket :: (.op (.unary u) :: t.bracketed) ++ [.closeBracket]
  | .binary b l r => .openBracket :: (l.bracketed ++ .op (.binary b) :: r.bracketed)
      ++ [.closeBracket]

theorem Phrase.exprOfSuffixed {ts : List Token} {t : Tree} (h : Phrase .suffixed ts t) :
    Phrase .expr ts t := .ofTerm (.ofPower (.ofPrefixed (.ofSuffixed h)))

/-- Atoms may be the operands of any operator. -/
theorem Phrase.binaryOfAtoms {ts us : List Token} {l r : Tree} (b : BinaryOp)
    (hl : Phrase .atom ts l) (hr : Phrase .atom us r) :
    Phrase .expr (ts ++ .op (.binary b) :: us) (.binary b l r) := by
  have hleft : Phrase .prefixed ts l := .ofSuffixed (.ofAtom hl)
  have hright : Phrase .power us r := .ofPrefixed (.ofSuffixed (.ofAtom hr))
  cases b with
  | add => exact .sum (.inl rfl) (.ofTerm (.ofPower (.ofPrefixed hleft))) (.ofPower hright)
  | subtract => exact .sum (.inr rfl) (.ofTerm (.ofPower (.ofPrefixed hleft))) (.ofPower hright)
  | multiply => exact .ofTerm (.product (.inl rfl) (.ofPower (.ofPrefixed hleft)) hright)
  | divide => exact .ofTerm (.product (.inr rfl) (.ofPower (.ofPrefixed hleft)) hright)
  | power => exact .ofTerm (.ofPower (.raise hleft hright))

/-- **A tree with its brackets is an atom.** -/
theorem Phrase.bracketed (t : Tree) : Phrase .atom t.bracketed t := by
  induction t with
  | number v => exact .number v
  | name word => exact .name word
  | unary u t ih =>
    cases u with
    | factorial => exact .bracket (.exprOfSuffixed (.factorial (.ofAtom ih)))
    | plus | minus | call f =>
      exact .bracket (.ofTerm (.ofPower (.ofPrefixed (.sign nofun (.ofSuffixed (.ofAtom ih))))))
  | binary b l r ihl ihr => exact .bracket (.binaryOfAtoms b ihl ihr)

/-! ## What stands in a phrase -/

/-- Apart from brackets, a phrase has the tokens of its tree. -/
theorem Phrase.mem_iff {k : Category} {ts : List Token} {t : Tree} (h : Phrase k ts t) {x : Token}
    (hopen : x ≠ .openBracket) (hclose : x ≠ .closeBracket) : x ∈ ts ↔ x ∈ t.postorder := by
  induction h with
  | ofTerm _ ih | ofPower _ ih | ofPrefixed _ ih | ofSuffixed _ ih | ofAtom _ ih => exact ih
  | sum _ _ _ ihl ihr | product _ _ _ ihl ihr | raise _ _ ihl ihr =>
    rw [List.mem_append, List.mem_cons, Tree.postorder, List.mem_append, List.mem_append,
      List.mem_singleton, ihl, ihr, or_assoc, or_comm (a := x = _)]
  | sign _ _ ih =>
    rw [List.mem_cons, Tree.postorder, List.mem_append, List.mem_singleton, ih, or_comm]
  | factorial _ ih => rw [List.mem_append, Tree.postorder, List.mem_append, ih]
  | number v | name word => rfl
  | bracket _ ih => simp [hopen, hclose, ih]

theorem Phrase.readable_iff {k : Category} {ts : List Token} {t : Tree} (h : Phrase k ts t) :
    (∀ x ∈ ts, x.Readable) ↔ ∀ x ∈ t.postorder, x.Readable := by
  have key : ∀ x : Token, (x ∈ ts → x.Readable) ↔ (x ∈ t.postorder → x.Readable) := by
    intro x
    cases x with
    | openBracket | closeBracket => exact ⟨fun _ _ => trivial, fun _ _ => trivial⟩
    | number v | name word | op o => exact imp_congr_left (h.mem_iff nofun nofun)
  exact forall_congr' key

end Formula
