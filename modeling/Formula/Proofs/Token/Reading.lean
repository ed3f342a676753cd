import Formula.Proofs.Token.Splitting

/-!
# Reading up to a place

Reading goes through a text from place to place, one token at a time. A token that is read depends
on its characters and on the one behind them. So up to a place every text is read alike that has the
same characters up to there and the same one behind (`Reads.congr`). What stands behind the last
token matters still less once it is only asked how the text splits: then a word must not go on, and
that is all (`Reads.splits`).
-/

namespace Formula

/-! ## One token -/

namespace Cursor

variable {c d : Cursor} {e : Expected} {t : Token}

/-- A token that is read, with the spaces before it and the characters that spell it. -/
theorem exists_of_readToken (h : c.readToken e = .ok (some t, d)) :
    ∃ blanks word, (∀ ch ∈ blanks, ch = ' ') ∧ t.Spelled word ∧
      c.rest = blanks ++ word ++ d.rest ∧
      ∀ rest, rest.head? = d.rest.head? → ∀ pos, readToken ⟨pos, blanks ++ word ++ rest⟩ e
        = .ok (some t, ⟨pos + blanks.length + word.length, rest⟩) := by
  obtain ⟨hfits, ⟨word, hword, hcs⟩, hstops, hnumber⟩ := leads_readToken h
  obtain ⟨blanks, hb, hrest, -⟩ := Tokens.exists_blanks c
  refine ⟨blanks, word, hb, hword, by rw [hrest, hcs, List.append_assoc], ?_⟩
  intro rest hr pos
  refine readToken_spelled pos hb hword hfits (fun hw ch hch => hstops hw ch (hr ▸ hch)) ?_
  rintro l hl ht rfl
  exact (hnumber l hl ht hcs).congr hr

theorem pos_of_readToken (h : c.readToken e = .ok (some t, d)) {cs : List Char}
    (hcs : c.rest = cs ++ d.rest) : d.pos = c.pos + cs.length := by
  obtain ⟨blanks, word, -, -, hrest, hread⟩ := exists_of_readToken h
  have hc : c = ⟨c.pos, blanks ++ word ++ d.rest⟩ := by rw [← hrest]
  rw [hc, hread d.rest rfl] at h
  have hd : d = ⟨c.pos + blanks.length + word.length, d.rest⟩ :=
    (Prod.mk.inj (Except.ok.inj h)).2.symm
  rw [hd, List.append_cancel_right (hcs.symm.trans hrest), List.length_append, Nat.add_assoc]

/-- The token stands between the spaces before it and the cursor behind it. -/
theorem pos_eq_of_readToken (h : c.readToken e = .ok (some t, d)) {word : List Char}
    (hword : c.skipSpaces.rest = word ++ d.rest) : d.pos = c.skipSpaces.pos + word.length := by
  obtain ⟨blanks, -, hrest, hskip⟩ := Tokens.exists_blanks c
  have hsplit : c.rest = blanks ++ word ++ d.rest := by rw [hrest, hword, List.append_assoc]
  rw [pos_of_readToken h hsplit, hskip, List.length_append, Nat.add_assoc]

/-- A token has a character at least. -/
theorem pos_skipSpaces_lt_of_readToken (h : c.readToken e = .ok (some t, d)) :
    c.skipSpaces.pos < d.pos := by
  obtain ⟨-, ⟨word, hword, hlead⟩, -, -⟩ := leads_readToken h
  obtain ⟨ch, cs, rfl, -⟩ := spelled_head_ne_space hword
  rw [pos_eq_of_readToken h hlead, List.length_cons]
  omega

/-- **A token is read wherever its characters stand before the same character.** -/
theorem readToken_congr (h : c.readToken e = .ok (some t, d)) {cs rest : List Char}
    (hcs : c.rest = cs ++ d.rest) (hr : rest.head? = d.rest.head?) :
    readToken ⟨c.pos, cs ++ rest⟩ e = .ok (some t, ⟨d.pos, rest⟩) ∧
      (skipSpaces ⟨c.pos, cs ++ rest⟩).pos = c.skipSpaces.pos := by
  obtain ⟨blanks, word, hb, hword, hrest, hread⟩ := exists_of_readToken h
  have hc : c = ⟨c.pos, blanks ++ word ++ d.rest⟩ := by rw [← hrest]
  have hpos := pos_of_readToken h hcs
  obtain rfl : cs = blanks ++ word := List.append_cancel_right (hcs.symm.trans hrest)
  refine ⟨?_, ?_⟩
  · rw [hread rest hr, hpos, List.length_append, Nat.add_assoc]
  · rw [skipSpaces_spelled c.pos hb hword, hc, skipSpaces_spelled c.pos hb hword]

/-! ## No token -/

theorem head_skipSpaces_ne_space {ch : Char} (h : ch ∈ c.skipSpaces.rest.head?) : ch ≠ ' ' :=
  of_decide_eq_false (eq_false_of_mem_head_dropWhile h)

theorem operandToken_none_congr (h : c.operandToken = .ok (none, c)) {ch : Char}
    {cs : List Char} (hc : c.rest = ch :: cs) (pos : Nat) (rest : List Char) :
    operandToken ⟨pos, ch :: rest⟩ = .ok (none, ⟨pos, ch :: rest⟩) := by
  unfold operandToken at h
  simp only [hc] at h
  split at h
  · cases h
  next h1 =>
  split at h
  · split at h <;> cases h
  next h2 =>
  split at h
  · cases h
  next h3 =>
  split at h
  · cases h
  next h4 =>
  split at h
  · cases h
  next h5 =>
  unfold operandToken
  simp only
  rw [if_neg h1, if_neg h2, if_neg h3, if_neg h4, if_neg h5]

theorem operatorToken_none_congr (h : c.operatorToken = (none, c)) {ch : Char}
    {cs : List Char} (hc : c.rest = ch :: cs) (pos : Nat) (rest : List Char) :
    operatorToken ⟨pos, ch :: rest⟩ = (none, ⟨pos, ch :: rest⟩) := by
  unfold operatorToken at h
  simp only [hc] at h
  split at h
  · cases h
  next h1 =>
  split at h
  · cases h
  next h2 =>
  split at h
  · cases h
  next h3 =>
  unfold operatorToken
  simp only
  rw [h1, if_neg h2, if_neg h3]

/-- **A character that begins no token begins none, whatever stands around it.** -/
theorem readToken_none_congr (h : c.readToken e = .ok (none, c.skipSpaces)) {ch : Char}
    {cs : List Char} (hc : c.skipSpaces.rest = ch :: cs) {blanks : List Char}
    (hb : ∀ d ∈ blanks, d = ' ') (pos : Nat) (rest : List Char) :
    readToken ⟨pos, blanks ++ ch :: rest⟩ e
      = .ok (none, ⟨pos + blanks.length, ch :: rest⟩) := by
  have hskip : skipSpaces ⟨pos, blanks ++ ch :: rest⟩ = ⟨pos + blanks.length, ch :: rest⟩ := by
    refine skipSpaces_append pos hb ?_
    rintro _ ⟨⟩
    exact head_skipSpaces_ne_space (by rw [hc]; rfl)
  rw [readToken.eq_def, hskip]
  cases e with
  | operand => exact operandToken_none_congr h hc _ _
  | operator => exact congrArg Except.ok (operatorToken_none_congr (Except.ok.inj h) hc _ _)

end Cursor

/-! ## All tokens up to a place -/

/-- Reading takes these tokens from one place to another. -/
inductive Reads : Expected → Cursor → List Located → Expected → Cursor → Prop where
  | nil {e c} : Reads e c [] e c
  | cons {e c t d ts e' c'} : c.readToken e = .ok (some t, d) → Reads (e.after t) d ts e' c' →
    Reads e c (⟨t, c.skipSpaces.pos⟩ :: ts) e' c'

namespace Reads

variable {e e' : Expected} {c c' : Cursor} {ts us : List Located}

theorem append {e'' : Expected} {c'' : Cursor} (h : Reads e c ts e' c')
    (h' : Reads e' c' us e'' c'') : Reads e c (ts ++ us) e'' c'' := by
  induction h with
  | nil => exact h'
  | cons ht _ ih => exact .cons ht (ih h')

/-- Reading goes on where it is. -/
theorem read_eq (h : Reads e c ts e' c') :
    Tokens.read e c = ⟨ts ++ (Tokens.read e' c').list, (Tokens.read e' c').ending⟩ := by
  induction h with
  | nil => rfl
  | cons ht _ ih =>
    rw [Tokens.read_some ht, ih]
    rfl

/-- There is a place behind each token. -/
theorem exists_of_list (h : (Tokens.read e c).list = ts ++ us) :
    ∃ e' c', Reads e c ts e' c' ∧ (Tokens.read e' c').list = us := by
  induction ts generalizing e c with
  | nil => exact ⟨e, c, .nil, h⟩
  | cons t ts ih =>
    rcases ht : c.readToken e with error | ⟨_ | u, d⟩
    · rw [Tokens.read_error ht] at h
      cases h
    · rw [Tokens.read_none ht] at h
      cases h
    · rw [Tokens.read_some ht] at h
      obtain ⟨rfl, hlist⟩ := List.cons.inj h
      obtain ⟨e', c', hreads, hus⟩ := ih hlist
      exact ⟨e', c', .cons ht hreads, hus⟩

/-- Each token may stand where it stands. -/
theorem through (h : Reads e c ts e' c') :
    e.through (ts.map Located.token) = some e' := by
  induction h with
  | nil => rfl
  | cons ht _ ih =>
    rw [List.map_cons, Expected.through, if_pos (Cursor.leads_readToken ht).fits]
    exact ih

theorem exists_append (h : Reads e c ts e' c') :
    ∃ cs, c.rest = cs ++ c'.rest ∧ c'.pos = c.pos + cs.length := by
  induction h with
  | nil => exact ⟨[], rfl, rfl⟩
  | cons ht _ ih =>
    obtain ⟨cs, hcs, hpos⟩ := ih
    obtain ⟨blanks, word, -, -, hrest, -⟩ := Cursor.exists_of_readToken ht
    refine ⟨blanks ++ word ++ cs, by rw [hrest, hcs, ← List.append_assoc], ?_⟩
    rw [hpos, Cursor.pos_of_readToken ht hrest, Nat.add_assoc, ← List.length_append]

theorem pos_le (h : Reads e c ts e' c') : c.pos ≤ c'.pos := by
  obtain ⟨cs, -, hpos⟩ := h.exists_append
  exact hpos ▸ Nat.le_add_right _ _

/-- A place lies behind the tokens up to there. -/
theorem start_lt (h : Reads e c ts e' c') : ∀ l ∈ ts, l.start < c'.pos := by
  induction h with
  | nil => exact nofun
  | cons ht hreads ih =>
    intro l hl
    rcases List.mem_cons.mp hl with rfl | hl
    · exact Nat.lt_of_lt_of_le (Cursor.pos_skipSpaces_lt_of_readToken ht) hreads.pos_le
    · exact ih l hl

/-- A place lies before the tokens from there on. -/
theorem le_start {l : Located} (hl : l ∈ (Tokens.read e c).list) : c.skipSpaces.pos ≤ l.start := by
  obtain ⟨ts, us, hlist⟩ := List.append_of_mem hl
  obtain ⟨e', c', hreads, hread⟩ := exists_of_list hlist
  have hstart : l.start = c'.skipSpaces.pos := by
    rcases ht : c'.readToken e' with error | ⟨_ | t, d⟩
    · rw [Tokens.read_error ht] at hread
      cases hread
    · rw [Tokens.read_none ht] at hread
      cases hread
    · rw [Tokens.read_some ht] at hread
      cases hread
      rfl
  rw [hstart]
  cases hreads with
  | nil => exact Nat.le_refl _
  | cons ht hreads =>
    -- the first token ends before the place
    calc c.skipSpaces.pos
      _ ≤ _ := Nat.le_of_lt (Cursor.pos_skipSpaces_lt_of_readToken ht)
      _ ≤ c'.pos := hreads.pos_le
      _ ≤ c'.skipSpaces.pos := Nat.le_add_right _ _

/-- **Up to a place, only the characters up to there and the next one count.** -/
theorem congr (h : Reads e c ts e' c') {cs rest : List Char} (hcs : c.rest = cs ++ c'.rest)
    (hr : rest.head? = c'.rest.head?) : Reads e ⟨c.pos, cs ++ rest⟩ ts e' ⟨c'.pos, rest⟩ := by
  induction h generalizing cs with
  | @nil e c =>
    obtain rfl : cs = [] := List.self_eq_append_left.mp hcs
    exact .nil
  | @cons e c t d ts e' c' ht hreads ih =>
    obtain ⟨blanks, word, -, -, hrest, -⟩ := Cursor.exists_of_readToken ht
    obtain ⟨ds, hds, -⟩ := hreads.exists_append
    obtain rfl : cs = blanks ++ word ++ ds := by
      rw [hrest, hds, ← List.append_assoc] at hcs
      exact (List.append_cancel_right hcs).symm
    -- behind the first token there is still the same character
    have hhead : (ds ++ rest).head? = d.rest.head? := by
      rw [hds, List.head?_append, List.head?_append, hr]
    obtain ⟨h1, h2⟩ := Cursor.readToken_congr ht hrest hhead
    rw [List.append_assoc, ← h2]
    exact .cons h1 (ih hds hr)

/-- **The characters up to a place split into the tokens up to there**, whatever follows that does
not begin with a letter. -/
theorem splits (h : Reads e c ts e' c') {cs rest : List Char} {us : List Token}
    (hcs : c.rest = cs ++ c'.rest) (hr : Splits rest us)
    (hl : ∀ ch ∈ rest.head?, isLetter ch = false) :
    Splits (cs ++ rest) (ts.map Located.token ++ us) := by
  induction h generalizing cs with
  | nil =>
    obtain rfl : cs = [] := List.self_eq_append_left.mp hcs
    exact hr
  | @cons e c t d ts e' c' ht hreads ih =>
    obtain ⟨-, ⟨word, hword, hlead⟩, hstops, -⟩ := Cursor.leads_readToken ht
    obtain ⟨blanks, hb, hskip, -⟩ := Tokens.exists_blanks c
    obtain ⟨ds, hds, -⟩ := hreads.exists_append
    obtain rfl : cs = blanks ++ word ++ ds := by
      rw [hskip, hlead, hds, ← List.append_assoc, ← List.append_assoc] at hcs
      exact (List.append_cancel_right hcs).symm
    rw [List.append_assoc (blanks ++ word)]
    refine .cons hb hword ?_ (ih hds)
    intro hw ch hch
    -- a word is followed by what followed it, or by the new characters
    rcases ds with _ | ⟨d', ds⟩
    · exact hl ch hch
    · exact hstops hw ch (by rw [hds]; exact hch)

end Reads

/-- Spaces in front make no difference. -/
theorem Splits.blanks {blanks rest : List Char} {ts : List Token} (hb : ∀ c ∈ blanks, c = ' ')
    (h : Splits rest ts) : Splits (blanks ++ rest) ts := by
  cases h with
  | nil hrest =>
    refine .nil fun c hc => ?_
    exact (List.mem_append.mp hc).elim (hb c) (hrest c)
  | cons hrest hword hstops hts =>
    rw [← List.append_assoc, ← List.append_assoc]
    refine .cons (fun c hc => ?_) hword hstops hts
    exact (List.mem_append.mp hc).elim (hb c) (hrest c)

end Formula
