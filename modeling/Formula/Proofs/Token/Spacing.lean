import Mathlib.Algebra.BigOperators.Group.Finset.Basic
import Formula.Proofs.Token.Longest
import Formula.Proofs.Token.Reading

/-!
# Spaces between tokens

Spaces are put into a text: `n p` of them before the character at each place `p`, and at its end. If
this is done only where reading stands between two tokens, or at the end (`Gaps`), then reading goes
from token to token as before, and each place moves by the spaces that were put in before it
(`Reads.spaced`).

What stands behind the spaces at a place is the same whether or not there were spaces before
(`Cursor.skipSpaces_before`). So reading with and without the spaces is compared there.
-/

namespace Formula

variable {n : Nat → Nat}

/-! ## Putting spaces in -/

/-- The characters from a place on, with the spaces that are put in there and behind. -/
def spaced (n : Nat → Nat) (pos : Nat) : List Char → List Char
  | [] => List.replicate (n pos) ' '
  | c :: cs => List.replicate (n pos) ' ' ++ c :: spaced n (pos + 1) cs

/-- The same without the spaces at the place itself. -/
def spacedBehind (n : Nat → Nat) (pos : Nat) : List Char → List Char
  | [] => []
  | c :: cs => c :: spaced n (pos + 1) cs

theorem spaced_eq (n : Nat → Nat) (pos : Nat) (cs : List Char) :
    spaced n pos cs = List.replicate (n pos) ' ' ++ spacedBehind n pos cs := by
  cases cs with
  | nil => exact (List.append_nil _).symm
  | cons c cs => rfl

/-- Where no space is put in, the characters stay together. -/
theorem spacedBehind_append {pos : Nat} {cs : List Char} (hne : cs ≠ [])
    (hn : ∀ q, pos < q → q < pos + cs.length → n q = 0) (rest : List Char) :
    spacedBehind n pos (cs ++ rest) = cs ++ spaced n (pos + cs.length) rest := by
  induction cs generalizing pos with
  | nil => exact absurd rfl hne
  | cons c cs ih =>
    rw [List.length_cons] at hn
    cases cs with
    | nil => rfl
    | cons d ds =>
      have hzero : n (pos + 1) = 0 :=
        hn (pos + 1) (Nat.lt_succ_self pos) (by rw [List.length_cons]; omega)
      have hzeros : ∀ q, pos + 1 < q → q < pos + 1 + (d :: ds).length → n q = 0 := fun q h1 h2 =>
        hn q (Nat.lt_of_succ_lt h1) (by omega)
      have htail := ih (List.cons_ne_nil d ds) hzeros
      show c :: spaced n (pos + 1) (d :: ds ++ rest) = _
      rw [spaced_eq, hzero, htail, List.length_cons (a := c), Nat.add_assoc, Nat.add_comm 1]
      rfl

/-- Before the characters from a place on there may be a space. -/
theorem eq_or_mem_of_mem_head_spaced {pos : Nat} {cs : List Char} {c : Char}
    (h : c ∈ (spaced n pos cs).head?) : c = ' ' ∨ c ∈ cs.head? := by
  rw [spaced_eq] at h
  cases hzero : n pos with
  | zero =>
    rw [hzero] at h
    cases cs with
    | nil => cases h
    | cons d cs => exact .inr h
  | succ k =>
    rw [hzero] at h
    exact .inl (Option.some.inj h).symm

theorem sum_range_eq_of_zero {a b : Nat} (hab : a ≤ b) (hn : ∀ q, a ≤ q → q < b → n q = 0) :
    ∑ q ∈ Finset.range b, n q = ∑ q ∈ Finset.range a, n q := by
  refine (Finset.sum_subset (Finset.range_mono hab) fun q hq hnot => ?_).symm
  exact hn q (Nat.le_of_not_lt fun h => hnot (Finset.mem_range.mpr h)) (Finset.mem_range.mp hq)

namespace Cursor

/-- A place in the text with the spaces put in, before those that are put in there. -/
def before (n : Nat → Nat) (c : Cursor) : Cursor :=
  ⟨c.pos + ∑ q ∈ Finset.range c.pos, n q, spaced n c.pos c.rest⟩

/-- The same place behind them. -/
def behind (n : Nat → Nat) (c : Cursor) : Cursor :=
  ⟨c.pos + ∑ q ∈ Finset.range (c.pos + 1), n q, spacedBehind n c.pos c.rest⟩

theorem skipSpaces_replicate (pos k : Nat) (rest : List Char) :
    skipSpaces ⟨pos, List.replicate k ' ' ++ rest⟩ = skipSpaces ⟨pos + k, rest⟩ := by
  have hblanks : ∀ c ∈ List.replicate k ' ', decide (c = ' ') = true := fun c hc =>
    decide_eq_true (List.eq_of_mem_replicate hc)
  rw [skipSpaces, List.takeWhile_append_of_pos hblanks, List.dropWhile_append_of_pos hblanks,
    List.length_append, List.length_replicate, ← Nat.add_assoc]
  rfl

/-- **Behind all spaces, it does not matter where spaces were put in.** -/
theorem skipSpaces_before (n : Nat → Nat) (c : Cursor) :
    (c.before n).skipSpaces = c.skipSpaces.behind n := by
  obtain ⟨pos, rest⟩ := c
  induction rest generalizing pos with
  | nil =>
    have h := skipSpaces_replicate (pos + ∑ q ∈ Finset.range pos, n q) (n pos) []
    rw [List.append_nil, Nat.add_assoc, ← Finset.sum_range_succ] at h
    exact h
  | cons ch cs ih =>
    have h := skipSpaces_replicate (pos + ∑ q ∈ Finset.range pos, n q) (n pos)
      (ch :: spaced n (pos + 1) cs)
    rw [Nat.add_assoc, ← Finset.sum_range_succ] at h
    refine h.trans ?_
    by_cases hch : ch = ' '
    · -- one more space to skip
      subst hch
      have h1 := skipSpaces_replicate (pos + ∑ q ∈ Finset.range (pos + 1), n q) 1
        (spaced n (pos + 1) cs)
      have h2 := skipSpaces_replicate pos 1 cs
      rw [show List.replicate 1 ' ' = [' '] from rfl, List.singleton_append] at h1 h2
      rw [h1, h2, ← ih (pos + 1), Nat.add_right_comm]
      rfl
    · have hstay : ∀ (p : Nat) (ds : List Char),
          skipSpaces ⟨p, ch :: ds⟩ = ⟨p, ch :: ds⟩ := fun p ds =>
        skipSpaces_append p (show ∀ d ∈ [], d = ' ' from nofun) (by rintro _ ⟨⟩; exact hch)
      rw [hstay, hstay]
      rfl

/-- **A token is read as before**, if no space is put in before or within it. -/
theorem readToken_before {c d : Cursor} {e : Expected} {t : Token}
    (h : c.readToken e = .ok (some t, d)) (hn : ∀ q, c.pos < q → q < d.pos → n q = 0) :
    (c.before n).readToken e = .ok (some t, d.before n) := by
  obtain ⟨hfits, ⟨word, hword, hcs⟩, hstops, hnumber⟩ := leads_readToken h
  have hpos := pos_eq_of_readToken h hcs
  have hlt := pos_skipSpaces_lt_of_readToken h
  have hne : word ≠ [] := by
    rintro rfl
    exact Nat.lt_irrefl _ (hpos ▸ hlt)
  have hzero : ∀ q, c.skipSpaces.pos < q → q < d.pos → n q = 0 := fun q h1 h2 =>
    hn q (Nat.lt_of_le_of_lt (Nat.le_add_right _ _) h1) h2
  have hbehind : c.skipSpaces.behind n
      = ⟨c.skipSpaces.pos + ∑ q ∈ Finset.range d.pos, n q, word ++ spaced n d.pos d.rest⟩ := by
    rw [behind, hcs, spacedBehind_append hne (hpos ▸ hzero), ← hpos,
      ← sum_range_eq_of_zero hlt hzero]
  have hd : d.before n = ⟨c.skipSpaces.pos + ∑ q ∈ Finset.range d.pos, n q + word.length,
      spaced n d.pos d.rest⟩ := by
    rw [before, Nat.add_right_comm, ← hpos]
  have hstops' : t.isWord → ∀ ch ∈ (spaced n d.pos d.rest).head?, isLetter ch = false := by
    intro hw ch hch
    rcases eq_or_mem_of_mem_head_spaced hch with rfl | hch
    · decide
    · exact hstops hw ch hch
  have hnumber' : ∀ l : Literal, l.IsNumber → t = .number l.value → word = l.spelling →
      l.Stops (spaced n d.pos d.rest) := by
    rintro l hl ht rfl ch hch
    rcases eq_or_mem_of_mem_head_spaced hch with rfl | hch
    · exact ⟨by decide, fun _ => ⟨by decide, fun _ => by decide⟩⟩
    · exact hnumber l hl ht hcs ch hch
  rw [readToken.eq_def, skipSpaces_before, hbehind, hd]
  cases e with
  | operand => exact operandToken_spelled _ hword hfits hstops' hnumber'
  | operator => exact congrArg Except.ok (operatorToken_spelled _ hword hfits)

end Cursor

/-! ## From token to token -/

/-- Behind this place, spaces are put in only where reading stands between two tokens, and at the
end. -/
def Gaps (n : Nat → Nat) (e : Expected) (c : Cursor) : Prop :=
  ∀ q, c.pos < q → n q ≠ 0 →
    q = c.pos + c.rest.length ∨ ∃ ls e' c', Reads e c ls e' c' ∧ c'.pos = q

namespace Gaps

variable {e : Expected} {c d : Cursor} {t : Token}

/-- No space is put in before or within the next token. -/
theorem eq_zero (h : Gaps n e c) (ht : c.readToken e = .ok (some t, d)) {q : Nat}
    (hc : c.pos < q) (hd : q < d.pos) : n q = 0 := by
  refine Classical.not_not.mp fun hne => ?_
  rcases h q hc hne with rfl | ⟨ls, e', c', hreads, rfl⟩
  · obtain ⟨cs, hcs, hpos⟩ := (Reads.cons ht .nil).exists_append
    rw [hcs, List.length_append] at hd
    omega
  · cases hreads with
    | nil => exact Nat.lt_irrefl _ hc
    | cons ht' hreads =>
      cases ht.symm.trans ht'
      exact Nat.lt_irrefl _ (Nat.lt_of_lt_of_le hd hreads.pos_le)

theorem after (h : Gaps n e c) (ht : c.readToken e = .ok (some t, d)) :
    Gaps n (e.after t) d := by
  intro q hq hne
  obtain ⟨cs, hcs, hpos⟩ := (Reads.cons ht .nil).exists_append
  rcases h q (by omega) hne with rfl | ⟨ls, e', c', hreads, rfl⟩
  · refine .inl ?_
    rw [hcs, List.length_append, hpos, Nat.add_assoc]
  · cases hreads with
    | nil => omega
    | cons ht' hreads =>
      cases ht.symm.trans ht'
      exact .inr ⟨_, _, _, hreads, rfl⟩

/-- Where no token is read, spaces are put in only at the end. -/
theorem eq_end (h : Gaps n e c) (hnone : ∀ t d, c.readToken e ≠ .ok (some t, d)) {q : Nat}
    (hc : c.pos < q) (hq : q < c.pos + c.rest.length) : n q = 0 := by
  refine Classical.not_not.mp fun hne => ?_
  rcases h q hc hne with rfl | ⟨ls, e', c', hreads, rfl⟩
  · exact Nat.lt_irrefl _ hq
  · cases hreads with
    | nil => exact Nat.lt_irrefl _ hc
    | cons ht _ => exact hnone _ _ ht

end Gaps

/-- **Reading goes from token to token as before.** -/
theorem Reads.spaced {e e' : Expected} {c c' : Cursor} {ls : List Located}
    (h : Reads e c ls e' c') (hgaps : Gaps n e c) :
    (∃ ls', ls'.map Located.token = ls.map Located.token ∧
        Reads e (c.before n) ls' e' (c'.before n)) ∧ Gaps n e' c' := by
  induction h with
  | nil => exact ⟨⟨[], rfl, .nil⟩, hgaps⟩
  | @cons e c t d ts e' c' ht _ ih =>
    obtain ⟨⟨ls', htokens, hreads⟩, hgaps'⟩ := ih (hgaps.after ht)
    have ht' := Cursor.readToken_before ht fun q h1 h2 => hgaps.eq_zero ht h1 h2
    refine ⟨⟨_, ?_, .cons ht' hreads⟩, hgaps'⟩
    exact congrArg (t :: ·) htokens

/-! ## Where no token is read -/

namespace Cursor

theorem spacedBehind_eq_nil_iff {pos : Nat} {cs : List Char} :
    spacedBehind n pos cs = [] ↔ cs = [] := by
  cases cs with
  | nil => exact ⟨fun _ => rfl, fun _ => rfl⟩
  | cons c cs => exact ⟨nofun, nofun⟩

/-- **Where no token stands, none stands with spaces around.** -/
theorem readToken_none_before {c : Cursor} {e : Expected}
    (h : c.readToken e = .ok (none, c.skipSpaces)) (n : Nat → Nat) :
    (c.before n).readToken e = .ok (none, (c.before n).skipSpaces) := by
  obtain ⟨blanks, hb, hrest, hpos⟩ := Tokens.exists_blanks (c.before n)
  have hc : c.before n = ⟨(c.before n).pos, blanks ++ (c.before n).skipSpaces.rest⟩ := by
    rw [← hrest]
  have hskip : (c.before n).skipSpaces
      = ⟨(c.before n).pos + blanks.length, (c.before n).skipSpaces.rest⟩ := by rw [← hpos]
  rw [skipSpaces_before] at hc hskip ⊢
  rw [hskip]
  conv => lhs; rw [hc]
  cases hcs : c.skipSpaces.rest with
  | nil =>
    have hnil : (c.skipSpaces.behind n).rest = [] := spacedBehind_eq_nil_iff.mpr hcs
    rw [hnil, List.append_nil]
    exact readToken_blanks _ e hb
  | cons ch cs =>
    have hcons : (c.skipSpaces.behind n).rest
        = ch :: Formula.spaced n (c.skipSpaces.pos + 1) cs := by
      rw [behind, hcs]
      rfl
    rw [hcons]
    exact readToken_none_congr h hcs hb _ _

end Cursor

/-! ## Numbers that are refused -/

theorem Literal.IsPiece.space_not_mem {l : Literal} (h : l.IsPiece) : ' ' ∉ l.spelling := by
  intro hmem
  rcases h.char_of_mem hmem with hdigit | hmem
  · exact absurd hdigit (by decide)
  · exact absurd hmem (by decide)

/-- A piece does not go on with spaces. -/
theorem Literal.read_append_replicate (cs : List Char) (k : Nat) :
    read (cs ++ List.replicate k ' ') = read cs := by
  have hlongest : (read cs).IsLongest cs := isLongest_iff.mpr rfl
  refine (isLongest_iff.mp ⟨hlongest.toIsPiece, ?_, fun l hl hstands => ?_⟩).symm
  · exact hlongest.stands.trans (List.prefix_append _ _)
  · by_cases hlength : l.spelling.length ≤ cs.length
    · exact hlongest.longest l hl
        (List.prefix_of_prefix_length_le hstands (List.prefix_append _ _) hlength)
    · -- a longer piece would have a space in it
      obtain ⟨rest, hrest⟩ := List.prefix_of_prefix_length_le (List.prefix_append cs _) hstands
        (Nat.le_of_not_le hlength)
      obtain ⟨tail, htail⟩ := hstands
      rw [← hrest, List.append_assoc] at htail
      have hspaces := List.append_cancel_left htail
      refine absurd ?_ hl.space_not_mem
      cases rest with
      | nil => exact absurd (by rw [← hrest, List.append_nil]) hlength
      | cons c rest =>
        have hc : c ∈ List.replicate k ' ' := hspaces ▸ List.mem_cons_self
        rw [← hrest, ← List.eq_of_mem_replicate hc]
        exact List.mem_append_right _ List.mem_cons_self

/-- **A number that is refused is refused with spaces behind it**, and for the same cause. -/
theorem Cursor.exists_error_before {c : Cursor} {error : CompileError}
    (h : c.readToken .operand = .error error) (hgaps : Gaps n .operand c) :
    ∃ error', (c.before n).readToken .operand = .error error' ∧ error'.cause = error.cause := by
  obtain ⟨ch, cs, hcs, hstarts, hread⟩ := readNumber_of_operandToken_eq_error h
  obtain ⟨k, hfault, -⟩ := exists_of_readNumber_eq_error hread
  have hbracket : ch ≠ '(' := by
    rintro rfl
    exact absurd hstarts (by decide)
  obtain ⟨blanks, -, hrest, hskip⟩ := Tokens.exists_blanks c
  have hbehind : (c.skipSpaces.behind n).rest = ch :: cs ++ List.replicate
      (n (c.skipSpaces.pos + (ch :: cs).length)) ' ' := by
    rw [behind, hcs, ← List.append_nil (ch :: cs), spacedBehind_append (List.cons_ne_nil ch cs),
      List.append_nil]
    · rfl
    · intro q h1 h2
      refine hgaps.eq_end (fun t d => by rw [h]; nofun) (by omega) ?_
      rw [hrest, List.length_append, hcs]
      omega
  have hfault' : (Literal.read (c.skipSpaces.behind n).rest).fault? = some (error.cause, k) := by
    rw [hbehind, Literal.read_append_replicate, ← hcs, hfault]
  have hread' : (c.skipSpaces.behind n).readNumber
      = .error ((c.skipSpaces.behind n).errorQuoting error.cause k) := by
    unfold readNumber
    simp only [hfault']
  refine ⟨(c.skipSpaces.behind n).errorQuoting error.cause k, ?_, rfl⟩
  rw [readToken, skipSpaces_before]
  unfold operandToken
  rw [hread']
  simp only [hbehind, List.cons_append]
  rw [if_neg hbracket, if_pos hstarts]

end Formula
