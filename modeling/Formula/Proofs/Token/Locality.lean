import Formula.Proofs.Token.Reading
import Formula.Token.Reader

/-!
# Reading looks at what follows

A token that is read at a position of a text is read alike at the beginning of what follows there,
and only the positions are others (`Cursor.readToken_shift`). Reading never goes back and never
leaves the text. What it passes are spaces and then the token, if there is one (`Passed`). So each
token takes up a character of its own, and a text has no more tokens than characters
(`Tokens.length_list_read_le`).

Main statement: `Reader.next_local`.
-/

namespace Formula

/-! ## Moving a place -/

/-- The same characters, further on. -/
def Cursor.shift (n : Nat) (c : Cursor) : Cursor := ⟨n + c.pos, c.rest⟩

/-- The same error, further on. -/
def CompileError.shift (n : Nat) (e : CompileError) : CompileError :=
  ⟨e.cause, n + e.start, n + e.stop, e.found⟩

namespace Cursor

variable (n : Nat) (c : Cursor)

theorem advance_shift (k : Nat) : (c.shift n).advance k = (c.advance k).shift n := by
  simp only [shift, advance, Nat.add_assoc]

theorem skipSpaces_shift : (c.shift n).skipSpaces = c.skipSpaces.shift n := by
  simp only [shift, skipSpaces, Nat.add_assoc]

theorem errorQuoting_shift (cause : CompileError.Cause) (k : Nat) :
    (c.shift n).errorQuoting cause k = (c.errorQuoting cause k).shift n := by
  simp only [errorQuoting, CompileError.shift, shift, text, Nat.add_assoc]

theorem readNumber_shift :
    (c.shift n).readNumber
      = (c.readNumber.map fun r => (r.1, r.2.shift n)).mapError (CompileError.shift n) := by
  have hrest : (c.shift n).rest = c.rest := rfl
  unfold readNumber
  rw [hrest]
  simp only
  split
  · exact congrArg Except.error (c.errorQuoting_shift n _ _)
  · exact congrArg (fun d => Except.ok (_, d)) (c.advance_shift n _)

theorem operandToken_shift :
    (c.shift n).operandToken
      = (c.operandToken.map fun r => (r.1, r.2.shift n)).mapError (CompileError.shift n) := by
  have hrest : (c.shift n).rest = c.rest := rfl
  unfold operandToken
  rw [hrest]
  cases c.rest with
  | nil => rfl
  | cons ch cs =>
    simp only [advance_shift, readNumber_shift]
    split
    · rfl
    split
    · cases c.readNumber with
      | ok r => rfl
      | error e => rfl
    split
    · rfl
    split
    · rfl
    split
    · rfl
    · rfl

theorem operatorToken_shift :
    (c.shift n).operatorToken = (c.operatorToken.1, c.operatorToken.2.shift n) := by
  have hrest : (c.shift n).rest = c.rest := rfl
  unfold operatorToken
  rw [hrest]
  cases c.rest with
  | nil => rfl
  | cons ch cs =>
    simp only [advance_shift]
    split
    · rfl
    split
    · rfl
    split
    · rfl
    · rfl

/-- **A token is read alike wherever its characters stand.** -/
theorem readToken_shift (e : Expected) :
    (c.shift n).readToken e
      = ((c.readToken e).map fun r => (r.1, r.2.shift n)).mapError (CompileError.shift n) := by
  unfold readToken
  rw [skipSpaces_shift]
  cases e with
  | operand => exact c.skipSpaces.operandToken_shift n
  | operator => exact congrArg Except.ok (c.skipSpaces.operatorToken_shift n)

end Cursor

/-! ## What is passed -/

/-- The characters that are passed when a token is read, or none: spaces, and how the token is
written. -/
def Passed (chars : List Char) : Option Token → Prop
  | none => ∀ ch ∈ chars, ch = ' '
  | some t => ∃ blanks word, chars = blanks ++ word ∧ (∀ ch ∈ blanks, ch = ' ') ∧ t.Spelled word

theorem Passed.ne_nil {chars : List Char} {t : Token} (h : Passed chars (some t)) :
    chars ≠ [] := by
  obtain ⟨blanks, word, rfl, -, hword⟩ := h
  obtain ⟨ch, cs, rfl, -⟩ := Cursor.spelled_head_ne_space hword
  exact List.append_ne_nil_of_right_ne_nil _ (List.cons_ne_nil ch cs)

/-- **Reading passes spaces and the token.** -/
theorem Cursor.exists_passed {c d : Cursor} {e : Expected} {t : Option Token}
    (h : c.readToken e = .ok (t, d)) :
    ∃ chars, c.rest = chars ++ d.rest ∧ d.pos = c.pos + chars.length ∧ Passed chars t := by
  cases t with
  | none =>
    rw [readToken_none h]
    obtain ⟨blanks, hb, hrest, hpos⟩ := Tokens.exists_blanks c
    exact ⟨blanks, hrest, hpos, hb⟩
  | some t =>
    obtain ⟨blanks, word, hb, hword, hrest, -⟩ := exists_of_readToken h
    exact ⟨blanks ++ word, hrest, pos_of_readToken h hrest, blanks, word, rfl, hb, hword⟩

/-- **There are no more tokens than characters.** -/
theorem Tokens.length_list_read_le (e : Expected) (c : Cursor) :
    (read e c).list.length ≤ c.rest.length := by
  induction e, c using read.induct with
  | case1 e c error herror =>
    rw [read_error herror]
    exact Nat.zero_le _
  | case2 e c d hnone =>
    rw [read_none hnone]
    exact Nat.zero_le _
  | case3 e c t d hsome ih =>
    rw [read_some hsome]
    exact Nat.lt_of_le_of_lt ih (Cursor.readToken_length hsome)

/-! ## Reading in a text -/

namespace Reader

/-- What follows a position of the text. -/
def following (r : Reader) (pos : Nat) : String := String.ofList (r.text.toList.drop pos)

/-- The characters from a position up to where the reader stands. -/
def passed (r : Reader) (pos : Nat) : List Char := (r.text.toList.drop pos).take (r.pos - pos)

variable (r : Reader) (expected : Expected) (pos : Nat)

theorem ofText_following :
    Cursor.ofText r.text pos = (Cursor.ofText (r.following pos) 0).shift pos := by
  have hchars : (r.following pos).toList = r.text.toList.drop pos := String.toList_ofList
  rw [Cursor.ofText, Cursor.ofText, hchars]
  rfl

/-- Reading at a position is reading what follows there. -/
theorem next_following :
    (r.next expected (some pos)).2
        = ((start (r.following pos) r.table).next expected (some 0)).2.mapError
          (CompileError.shift pos) ∧
      (r.next expected (some pos)).1.table
        = ((start (r.following pos) r.table).next expected (some 0)).1.table ∧
      ∀ entry, (r.next expected (some pos)).2 = .ok entry →
        (r.next expected (some pos)).1.pos
          = pos + ((start (r.following pos) r.table).next expected (some 0)).1.pos := by
  have hread := (Cursor.ofText (r.following pos) 0).readToken_shift pos expected
  rw [← ofText_following] at hread
  simp only [next, start, Option.getD_some, hread]
  rcases (Cursor.ofText (r.following pos) 0).readToken expected with error | ⟨_ | t, d⟩
  · exact ⟨rfl, rfl, nofun⟩
  · exact ⟨rfl, rfl, fun _ _ => rfl⟩
  · exact ⟨rfl, rfl, fun _ _ => rfl⟩

/-- The token goes into the table as it was read, and none changes nothing. -/
theorem exists_of_next {entry : Option Entry} (h : (r.next expected (some pos)).2 = .ok entry) :
    ∃ c, (Cursor.ofText r.text pos).readToken expected = .ok (entry.map Entry.token, c) ∧
      (r.next expected (some pos)).1.text = r.text ∧
      (r.next expected (some pos)).1.pos = c.pos ∧
      (entry = none → (r.next expected (some pos)).1.table = r.table) := by
  simp only [next, Option.getD_some] at h ⊢
  rcases hread : (Cursor.ofText r.text pos).readToken expected with error | ⟨_ | t, c⟩
  · rw [hread] at h
    cases h
  · rw [hread] at h
    cases h
    exact ⟨c, rfl, rfl, rfl, fun _ => rfl⟩
  · rw [hread] at h
    cases h
    refine ⟨c, ?_, rfl, rfl, nofun⟩
    cases t with
    | number v | name word | op o | openBracket | closeBracket => rfl

/-- **Reading goes forward and stays in the text.** -/
theorem passed_next {entry : Option Entry} (h : (r.next expected (some pos)).2 = .ok entry) :
    pos ≤ (r.next expected (some pos)).1.pos ∧
      (r.next expected (some pos)).1.pos ≤ max pos r.text.length ∧
      (entry ≠ none → pos < (r.next expected (some pos)).1.pos) ∧
      Passed ((r.next expected (some pos)).1.passed pos) (entry.map Entry.token) := by
  obtain ⟨c, hread, htext, hpos, -⟩ := r.exists_of_next expected pos h
  obtain ⟨chars, hrest, hend, hpassed⟩ := Cursor.exists_passed hread
  have hdrop : r.text.toList.drop pos = chars ++ c.rest := hrest
  have hend : c.pos = pos + chars.length := hend
  have hlength : chars.length ≤ r.text.length - pos := by
    rw [← String.length_toList, ← List.length_drop, hdrop, List.length_append]
    exact Nat.le_add_right _ _
  rw [passed, htext, hpos, hend, hdrop, Nat.add_sub_cancel_left, List.take_left]
  refine ⟨Nat.le_add_right _ _, by omega, fun hentry => ?_, hpassed⟩
  obtain ⟨x, rfl⟩ := Option.ne_none_iff_exists'.mp hentry
  have hne : chars ≠ [] := Passed.ne_nil hpassed
  have := List.length_pos_iff.mpr hne
  omega

/--
**A token is read by what follows its position, and it takes up its own characters.**

At each position, and also past the end, reading gives the token, the table and the error that it
gives at the beginning of what follows there; the position behind the token and the span of the
error are further on by as much. Reading does not go back and does not go past the end, unless it
stands there. It passes spaces and the token as it is written, or spaces only if there is no token;
then the table stays as it is. With a token it goes on by a character at least, and so a text is
read in no more tokens than it has characters.
-/
theorem next_local :
    ((r.next expected (some pos)).2
        = ((start (r.following pos) r.table).next expected (some 0)).2.mapError
          (CompileError.shift pos) ∧
      (r.next expected (some pos)).1.table
        = ((start (r.following pos) r.table).next expected (some 0)).1.table) ∧
    (∀ entry, (r.next expected (some pos)).2 = .ok entry →
      (r.next expected (some pos)).1.pos
          = pos + ((start (r.following pos) r.table).next expected (some 0)).1.pos ∧
        pos ≤ (r.next expected (some pos)).1.pos ∧
        (r.next expected (some pos)).1.pos ≤ max pos r.text.length ∧
        (entry ≠ none → pos < (r.next expected (some pos)).1.pos) ∧
        (entry = none → (r.next expected (some pos)).1.table = r.table) ∧
        Passed ((r.next expected (some pos)).1.passed pos) (entry.map Entry.token)) ∧
    (Tokens.ofText r.text).list.length ≤ r.text.length := by
  obtain ⟨hresult, htable, hpos⟩ := r.next_following expected pos
  refine ⟨⟨hresult, htable⟩, fun entry h => ?_, ?_⟩
  · obtain ⟨c, -, -, -, hnone⟩ := r.exists_of_next expected pos h
    obtain ⟨hle, hmax, hlt, hpassed⟩ := r.passed_next expected pos h
    exact ⟨hpos entry h, hle, hmax, hlt, hnone, hpassed⟩
  · rw [← String.length_toList]
    exact Tokens.length_list_read_le .operand (Cursor.ofText r.text 0)

end Reader

end Formula
