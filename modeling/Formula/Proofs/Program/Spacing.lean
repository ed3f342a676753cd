import Formula.Proofs.Program.Registration
import Formula.Proofs.Token.Spacing

/-!
# Spaces between tokens make no difference

Spaces that are put between the tokens of a text, before the first one and behind the last one, are
skipped. So the program and the table stay the same, and a text that is refused is refused at the
same place and for the same cause, only that the place has moved with the characters around it
(`compile_spaced`).
-/

namespace Formula

/-- Where spaces may be put into a text: at its beginning, where reading it has come to the end of a
token, and at its end. -/
def IsGap (text : String) (pos : Nat) : Prop :=
  pos = text.length ∨
    ∃ ls e c, Reads .operand (Cursor.ofText text 0) ls e c ∧ c.pos = pos

/-- A text with `n p` spaces put in before each place `p`. -/
def spacedText (n : Nat → Nat) (text : String) : String := String.ofList (spaced n 0 text.toList)

section

variable {n : Nat → Nat} {text : String}

theorem gaps_of_isGap (h : ∀ pos, n pos ≠ 0 → IsGap text pos) :
    Gaps n .operand (Cursor.ofText text 0) := by
  intro q _ hne
  rcases h q hne with rfl | hreads
  · exact .inl (Nat.zero_add _).symm
  · exact .inr hreads

/-- Reading begins before the spaces that are put in at the beginning. -/
theorem before_ofText (n : Nat → Nat) (text : String) :
    (Cursor.ofText text 0).before n = Cursor.ofText (spacedText n text) 0 := by
  show Cursor.mk 0 (spaced n 0 text.toList) = ⟨0, (spacedText n text).toList⟩
  rw [spacedText, String.toList_ofList]

/-! ## Refused texts -/

/-- **What is wrong at a place stays wrong with spaces around it.** -/
theorem Refused.spaced {e : Expected} {c : Cursor} {y : Yard} {error : CompileError}
    (h : Refused e c y error) (hgaps : Gaps n e c) :
    ∃ error', Refused e (c.before n) y error' ∧ error'.cause = error.cause := by
  have hnil : (c.before n).skipSpaces.rest = [] ↔ c.skipSpaces.rest = [] := by
    rw [Cursor.skipSpaces_before]
    exact Cursor.spacedBehind_eq_nil_iff
  cases h with
  | number herror =>
    obtain ⟨error', herror', hcause⟩ := Cursor.exists_error_before herror hgaps
    exact ⟨error', .number herror', hcause⟩
  | operand hnone => exact ⟨_, .operand (Cursor.readToken_none_before hnone n), rfl⟩
  | input hnone hrest =>
    exact ⟨_, .input (Cursor.readToken_none_before hnone n) (mt hnil.mp hrest), rfl⟩
  | missing hrest hopen => exact ⟨_, .missing (hnil.mpr hrest) hopen, rfl⟩
  | bracket hbracket hzero =>
    have hread := Cursor.readToken_before hbracket fun q h1 h2 => hgaps.eq_zero hbracket h1 h2
    exact ⟨_, .bracket hread hzero, rfl⟩

/-- A text with spaces put in is refused where the text is. -/
theorem Ordered.ofText_spacedText_of_error (h : ∀ pos, n pos ≠ 0 → IsGap text pos)
    {error : CompileError} (herror : (ofText text).result = .error error) :
    ∃ error', ofText (spacedText n text) = ⟨(ofText text).released, .error error'⟩ ∧
      error'.cause = error.cause ∧
      error'.start = error.start + ∑ q ∈ Finset.range (error.start + 1), n q := by
  obtain ⟨ls, e, c, y, hreads, hy, hrefused⟩ := exists_refused herror
  obtain ⟨⟨ls', htokens, hreads'⟩, hgaps⟩ := hreads.spaced (gaps_of_isGap h)
  obtain ⟨error', hrefused', hcause⟩ := hrefused.spaced hgaps
  rw [before_ofText] at hreads'
  rw [← htokens] at hy
  refine ⟨error', ?_, hcause, ?_⟩
  · rw [ofText_of_refused hreads' hy hrefused', ofText_of_refused hreads (htokens ▸ hy) hrefused]
  · rw [hrefused'.start_eq, hrefused.start_eq, Cursor.skipSpaces_before]
    rfl

/-! ## Texts that compile -/

/-- Reading a formula comes to the end of its text. -/
theorem IsReading.exists_reads {t : Tree} (ht : IsReading text t) :
    ∃ ls e c, Reads .operand (Cursor.ofText text 0) ls e c ∧ c.skipSpaces.rest = [] ∧
      Phrase .expr (ls.map Located.token) t := by
  obtain ⟨ts, hsplits, hphrase⟩ := ht
  obtain ⟨hlist, p, hending⟩ := Tokens.read_splits hsplits hphrase.through 0
  obtain ⟨e, c, hreads, hnil⟩ := Reads.exists_of_list
    (List.append_nil (Tokens.read .operand (Cursor.ofText text 0)).list).symm
  refine ⟨_, e, c, hreads, ?_, hlist ▸ hphrase⟩
  rw [show Cursor.mk 0 text.toList = Cursor.ofText text 0 from rfl, hreads.read_eq] at hending
  rcases hc : c.readToken e with error | ⟨_ | u, d⟩
  · rw [Tokens.read_error hc] at hending
    cases hending
  · rw [Tokens.read_none hc] at hending
    rw [← Cursor.readToken_none hc]
    exact congrArg Cursor.rest (TokenEnd.stopped.inj hending).2
  · rw [Tokens.read_some hc] at hnil
    cases hnil

/-- **A text with spaces put in has the same tree.** -/
theorem IsReading.spaced {t : Tree} (ht : IsReading text t)
    (h : ∀ pos, n pos ≠ 0 → IsGap text pos) : IsReading (spacedText n text) t := by
  obtain ⟨ls, e, c, hreads, hrest, hphrase⟩ := ht.exists_reads
  obtain ⟨⟨ls', htokens, hreads'⟩, -⟩ := hreads.spaced (gaps_of_isGap h)
  rw [before_ofText] at hreads'
  have hrest' : (c.before n).skipSpaces.rest = [] := by
    rw [Cursor.skipSpaces_before]
    exact Cursor.spacedBehind_eq_nil_iff.mpr hrest
  have hsplits := hreads'.splits_take
  rw [hreads'.take_of_rest_eq_nil hrest', htokens] at hsplits
  exact ⟨_, hsplits, hphrase⟩

end

/--
**Spaces between tokens make no difference.**

Let any number of spaces be put into a text at its beginning, at its end and at the ends of tokens
that are read in it. Then the text compiles exactly if it did before, to the same program, and it
leaves the same names in the same slots. If it is refused, then for the same cause, and the error
has moved by the spaces that were put in up to its place.
-/
theorem compile_spaced (F : Folding) (text : String) (table : Table) (n : Nat → Nat)
    (h : ∀ pos, n pos ≠ 0 → IsGap text pos) :
    (∀ p, (compile F (spacedText n text) table).program = .ok p ↔
        (compile F text table).program = .ok p) ∧
      (compile F (spacedText n text) table).table = (compile F text table).table ∧
      ∀ error, (compile F text table).program = .error error →
        ∃ error', (compile F (spacedText n text) table).program = .error error' ∧
          error'.cause = error.cause ∧ error'.detail = error.detail ∧
          error'.start = error.start + ∑ q ∈ Finset.range (error.start + 1), n q := by
  cases hprogram : (compile F text table).program with
  | ok p =>
    obtain ⟨t, ht⟩ := exists_isReading_of_compile table hprogram
    have ht' := ht.spaced h
    have hsame : (compile F (spacedText n text) table).program = .ok p := by
      rw [← hprogram, program_compile_of_isReading table F ht',
        program_compile_of_isReading table F ht]
    refine ⟨fun q => by rw [hsame], ?_, nofun⟩
    rw [table_compile_of_isReading table F ht', table_compile_of_isReading table F ht]
  | error error =>
    obtain ⟨error', hordered, hcause, hstart⟩ :=
      Ordered.ofText_spacedText_of_error h (program_compile_eq_error_iff.mp hprogram)
    have herror : (compile F (spacedText n text) table).program = .error error' :=
      program_compile_eq_error_iff.mpr (by rw [hordered])
    refine ⟨fun q => by rw [herror]; exact ⟨nofun, nofun⟩, ?_, ?_⟩
    · rw [table_compile_eq, table_compile_eq, hordered]
    · rintro _ ⟨⟩
      exact ⟨error', herror, hcause, congrArg CompileError.Cause.detail hcause, hstart⟩

/-- A beginning of a sum, with spaces around all that stands there. -/
theorem compile_spaced_sum :
    (compile ⟨.standard, true⟩ "x+" .withConstants).program
        = .error ⟨.operandExpected, 2, 2, none⟩ ∧
      ∃ error', (compile ⟨.standard, true⟩ (spacedText (fun pos => [1, 2, 1].getD pos 0) "x+")
          .withConstants).program = .error error' ∧
        error'.cause = .operandExpected ∧ error'.start = 6 := by
  have herror : (compile ⟨.standard, true⟩ "x+" .withConstants).program
      = .error ⟨.operandExpected, 2, 2, none⟩ := by
    decide +kernel
  have hx : (Cursor.ofText "x+" 0).readToken .operand = .ok (some (.name "x"), ⟨1, ['+']⟩) := rfl
  have hgaps : ∀ pos, [1, 2, 1].getD pos 0 ≠ 0 → IsGap "x+" pos := by
    rintro (_ | _ | _ | pos) hpos
    · exact .inr ⟨_, _, _, .nil, rfl⟩
    · exact .inr ⟨_, _, _, .cons hx .nil, rfl⟩
    · exact .inl rfl
    · exact absurd rfl hpos
  obtain ⟨-, -, hmoves⟩ := compile_spaced ⟨.standard, true⟩ "x+" .withConstants _ hgaps
  obtain ⟨error', herror', hcause, -, hstart⟩ := hmoves _ herror
  exact ⟨herror, error', herror', hcause, hstart⟩

end Formula
