import Formula.Proofs.Grammar.Phrase
import Formula.Proofs.Token.Literal
import Formula.Token.Sequence

/-!
# Splitting a text into tokens

A text splits into tokens if it is their spellings one after the other, with any number of spaces
between, before and behind them. A word ends only where its letters end. Nothing is said about
numbers that follow each other without a space, so `12` also splits into two numbers; but two
operands in a row are no formula, and so nothing is lost.

Main statements: the tokens that are read split the text (`splits_read`), and a text that splits
into tokens that may stand where they stand is read as these tokens (`read_splits`).
-/

namespace Formula

/-! ## Spelling -/

/-- A word: a name or a function. -/
def Token.isWord : Token → Bool
  | .name _ | .op (.unary (.call _)) => true
  | _ => false

/-- How a token may be written. A sign and the binary operator of its character are two tokens. -/
inductive Token.Spelled : Token → List Char → Prop where
  | number {l : Literal} : l.IsNumber → l.value.isInfinite = false →
    Spelled (.number l.value) l.spelling
  | name {cs : List Char} : cs ≠ [] → (∀ c ∈ cs, isLetter c) →
    (∀ f : NamedFunction, f.symbol ≠ String.ofList cs) → Spelled (.name (String.ofList cs)) cs
  | call (f : NamedFunction) : Spelled (.op (.unary (.call f))) f.symbol.toList
  | plus : Spelled (.op (.unary .plus)) ['+']
  | minus : Spelled (.op (.unary .minus)) ['-']
  | factorial : Spelled (.op (.unary .factorial)) ['!']
  | binary (b : BinaryOp) : Spelled (.op (.binary b)) [b.char]
  | openBracket : Spelled .openBracket ['(']
  | closeBracket : Spelled .closeBracket [')']

/-- Tokens that a text splits into. -/
inductive Splits : List Char → List Token → Prop where
  | nil {blanks} : (∀ c ∈ blanks, c = ' ') → Splits blanks []
  | cons {blanks word rest t ts} : (∀ c ∈ blanks, c = ' ') → Token.Spelled t word →
    (t.isWord → ∀ c ∈ rest.head?, isLetter c = false) → Splits rest ts →
    Splits (blanks ++ word ++ rest) (t :: ts)

/-- What a token is written with splits into it. -/
theorem splits_of_spelled {t : Token} {word : List Char} (h : t.Spelled word) :
    Splits word [t] := by
  have hsplits : Splits ([] ++ word ++ []) [t] := .cons nofun h nofun (.nil nofun)
  rwa [List.append_nil] at hsplits

/-! ## Words -/

theorem NamedFunction.mem_all (f : NamedFunction) : f ∈ NamedFunction.all := by
  cases f <;> decide

theorem NamedFunction.ofWord?_symbol (f : NamedFunction) :
    NamedFunction.ofWord? f.symbol = some f := by
  cases f <;> decide

theorem NamedFunction.symbol_of_ofWord? {word : String} {f : NamedFunction}
    (h : NamedFunction.ofWord? word = some f) : f.symbol = word := by
  simpa using List.find?_some h

theorem NamedFunction.ofWord?_eq_none_iff {word : String} :
    NamedFunction.ofWord? word = none ↔ ∀ f : NamedFunction, f.symbol ≠ word := by
  rw [NamedFunction.ofWord?, List.find?_eq_none]
  exact ⟨fun h f => by simpa using h f f.mem_all, fun h f _ => by simpa using h f⟩

theorem NamedFunction.isLetter_of_mem_symbol (f : NamedFunction) :
    ∀ c ∈ f.symbol.toList, isLetter c := by
  have hall : f.symbol.toList.all isLetter = true := by cases f <;> decide
  exact List.all_eq_true.mp hall

theorem NamedFunction.symbol_ne_nil (f : NamedFunction) : f.symbol.toList ≠ [] := by
  cases f <;> decide

theorem BinaryOp.char_of_ofChar? {c : Char} {b : BinaryOp} (h : BinaryOp.ofChar? c = some b) :
    b.char = c := by
  simpa using List.find?_some h

/-- A token of a word is spelled by it. -/
theorem Token.spelled_ofWord {cs : List Char} (hne : cs ≠ []) (hcs : ∀ c ∈ cs, isLetter c) :
    (Token.ofWord (String.ofList cs)).Spelled cs := by
  unfold Token.ofWord
  split
  · next f hf =>
    have := NamedFunction.symbol_of_ofWord? hf
    rw [← String.toList_ofList (l := cs), ← this]
    exact .call f
  · next hf => exact .name hne hcs (NamedFunction.ofWord?_eq_none_iff.mp hf)

/-- No letter begins a number. -/
theorem not_isLetter_of_startsNumber {c : Char} (h : startsNumber c) : isLetter c = false := by
  simp only [startsNumber, isDigit, Bool.or_eq_true, Bool.and_eq_true, decide_eq_true_eq] at h
  rcases h with ⟨h0, h9⟩ | rfl
  · simp only [isLetter, Bool.or_eq_false_iff, Bool.and_eq_false_iff, decide_eq_false_iff_not]
    have h9' : c.val ≤ '9'.val := h9
    refine ⟨Or.inl ?_, Or.inl ?_⟩
    · intro h
      exact absurd (Nat.le_trans (m := c.val.toNat) h h9') (by decide)
    · intro h
      exact absurd (Nat.le_trans (m := c.val.toNat) h h9') (by decide)
  · decide

/-! ## One token -/

/-- A token that may stand here stands at the beginning of `cs`, and `rest` is what follows. A word
ends where its letters end, and a number where nothing goes on with it. -/
structure Token.Leads (e : Expected) (t : Token) (cs rest : List Char) : Prop where
  fits : t.fits e
  spelled : ∃ word, t.Spelled word ∧ cs = word ++ rest
  stops : t.isWord → ∀ c ∈ rest.head?, isLetter c = false
  numberStops : ∀ l : Literal, l.IsNumber → t = .number l.value → cs = l.spelling ++ rest →
    l.Stops rest

namespace Cursor

theorem advance_append (pos : Nat) (word rest : List Char) :
    advance ⟨pos, word ++ rest⟩ word.length = ⟨pos + word.length, rest⟩ := by
  rw [advance, List.drop_left]

/-- A token of one character. -/
theorem leads_advance_one {c : Cursor} {ch : Char} {cs : List Char} (hc : c.rest = ch :: cs)
    {e : Expected} {t : Token} (hs : t.Spelled [ch]) (hf : t.fits e) (hw : t.isWord = false)
    (hn : ∀ v, t ≠ .number v) : t.Leads e c.rest (c.advance 1).rest where
  fits := hf
  spelled := ⟨[ch], hs, by rw [advance, hc]; rfl⟩
  stops h := by simp [hw] at h
  numberStops _ _ h := absurd h (hn _)

theorem leads_operandToken {c c' : Cursor} {t : Token} (h : c.operandToken = .ok (some t, c')) :
    t.Leads .operand c.rest c'.rest := by
  unfold operandToken at h
  split at h
  · cases h
  · next ch cs hc =>
    split at h
    · next hch => cases h; exact leads_advance_one hc (hch ▸ .openBracket) rfl rfl nofun
    split at h
    · -- a number
      split at h
      · next v d hd =>
        cases h
        obtain ⟨l, hl, hv, rfl, hrest, hstops⟩ := exists_of_readNumber hd
        refine ⟨rfl, ⟨l.spelling, .number hl hv, hrest⟩, fun h => by simp [Token.isWord] at h, ?_⟩
        intro l' hl' _ hrest'
        have hs := List.append_cancel_right (hrest.symm.trans hrest')
        exact Literal.eq_of_spelling_eq hl.toIsPiece hl'.toIsPiece hs ▸ hstops
      · cases h
    split at h
    · -- a word, which takes all letters
      next hl =>
      cases h
      have hne : c.rest.takeWhile isLetter ≠ [] := by rw [hc]; simp [hl]
      have hall : ∀ d ∈ c.rest.takeWhile isLetter, isLetter d :=
        fun d hd => List.all_eq_true.mp List.all_takeWhile d hd
      have hdrop : (c.advance (c.rest.takeWhile isLetter).length).rest
          = c.rest.dropWhile isLetter := by
        show c.rest.drop _ = _
        conv => lhs; arg 2; rw [← List.takeWhile_append_dropWhile (p := isLetter) (l := c.rest)]
        exact List.drop_left
      refine ⟨?_, ⟨_, Token.spelled_ofWord hne hall, ?_⟩, ?_, ?_⟩
      · unfold Token.ofWord
        split <;> rfl
      · rw [hdrop, List.takeWhile_append_dropWhile]
      · intro _ d hd
        rw [hdrop] at hd
        exact eq_false_of_mem_head_dropWhile hd
      · intro l _ ht
        unfold Token.ofWord at ht
        split at ht <;> cases ht
    split at h
    · next hch => cases h; exact leads_advance_one hc (hch ▸ .minus) rfl rfl nofun
    split at h
    · next hch => cases h; exact leads_advance_one hc (hch ▸ .plus) rfl rfl nofun
    · cases h

theorem operandToken_none {c c' : Cursor} (h : c.operandToken = .ok (none, c')) : c' = c := by
  unfold operandToken at h
  split at h
  · cases h; rfl
  · split at h
    · cases h
    split at h
    · split at h <;> cases h
    split at h
    · cases h
    split at h
    · cases h
    split at h
    · cases h
    · cases h; rfl

theorem leads_operatorToken {c c' : Cursor} {t : Token} (h : c.operatorToken = (some t, c')) :
    t.Leads .operator c.rest c'.rest := by
  unfold operatorToken at h
  split at h
  · cases h
  · next ch cs hc =>
    split at h
    · next b hb =>
      cases h
      exact leads_advance_one hc (BinaryOp.char_of_ofChar? hb ▸ .binary b) rfl rfl nofun
    split at h
    · next hch => cases h; exact leads_advance_one hc (hch ▸ .closeBracket) rfl rfl nofun
    split at h
    · next hch => cases h; exact leads_advance_one hc (hch ▸ .factorial) rfl rfl nofun
    · cases h

theorem operatorToken_none {c c' : Cursor} (h : c.operatorToken = (none, c')) : c' = c := by
  unfold operatorToken at h
  split at h
  · cases h; rfl
  · split at h
    · cases h
    split at h
    · cases h
    split at h
    · cases h
    · cases h; rfl

/-- **A token that is read stands behind the spaces.** -/
theorem leads_readToken {c c' : Cursor} {e : Expected} {t : Token}
    (h : c.readToken e = .ok (some t, c')) : t.Leads e c.skipSpaces.rest c'.rest := by
  cases e with
  | operand => exact leads_operandToken h
  | operator => exact leads_operatorToken (Except.ok.inj h)

theorem readToken_none {c c' : Cursor} {e : Expected} (h : c.readToken e = .ok (none, c')) :
    c' = c.skipSpaces := by
  cases e with
  | operand => exact operandToken_none h
  | operator => exact operatorToken_none (Except.ok.inj h)

/-! ## Reading what is written -/

theorem operandToken_word {cs rest : List Char} (pos : Nat) (hne : cs ≠ [])
    (hcs : ∀ c ∈ cs, isLetter c) (hr : ∀ c ∈ rest.head?, isLetter c = false) :
    operandToken ⟨pos, cs ++ rest⟩
      = .ok (some (.ofWord (String.ofList cs)), ⟨pos + cs.length, rest⟩) := by
  obtain ⟨d, ds, rfl⟩ := List.exists_cons_of_ne_nil hne
  have hd := hcs d List.mem_cons_self
  have htake : (d :: ds ++ rest).takeWhile isLetter = d :: ds := (span_append hcs hr).1
  have hbracket : d ≠ '(' := by rintro rfl; exact absurd hd (by decide)
  have hnumber : ¬startsNumber d := fun h => by simp [not_isLetter_of_startsNumber h] at hd
  unfold operandToken
  simp only [List.cons_append] at htake ⊢
  rw [if_neg hbracket, if_neg hnumber, if_pos hd, htake]
  exact congrArg (fun c => Except.ok (some _, c)) (advance_append pos (d :: ds) rest)

theorem operandToken_spelled {t : Token} {word rest : List Char} (pos : Nat) (h : t.Spelled word)
    (hf : t.fits .operand) (hw : t.isWord → ∀ c ∈ rest.head?, isLetter c = false)
    (hn : ∀ l : Literal, l.IsNumber → t = .number l.value → word = l.spelling → l.Stops rest) :
    operandToken ⟨pos, word ++ rest⟩ = .ok (some t, ⟨pos + word.length, rest⟩) := by
  cases h with
  | @number l hl hv =>
    obtain ⟨d, ds, hd, hstart⟩ := Literal.exists_spelling_eq_cons hl
    have hread := readNumber_spelling hl hv pos (hn l hl rfl rfl)
    have hbracket : d ≠ '(' := by rintro rfl; exact absurd hstart (by decide)
    unfold operandToken
    rw [hread]
    simp only [hd, List.cons_append]
    rw [if_neg hbracket, if_pos hstart]
  | name hne hcs hsym =>
    rw [operandToken_word pos hne hcs (hw rfl), Token.ofWord,
      NamedFunction.ofWord?_eq_none_iff.mpr hsym]
  | call f =>
    rw [operandToken_word pos f.symbol_ne_nil f.isLetter_of_mem_symbol (hw rfl), Token.ofWord,
      String.ofList_toList, f.ofWord?_symbol]
  | plus => rfl
  | minus => rfl
  | openBracket => rfl
  | factorial => cases hf
  | binary b => cases hf
  | closeBracket => cases hf

theorem operatorToken_spelled {t : Token} {word rest : List Char} (pos : Nat) (h : t.Spelled word)
    (hf : t.fits .operator) :
    operatorToken ⟨pos, word ++ rest⟩ = (some t, ⟨pos + word.length, rest⟩) := by
  cases h with
  | binary b => cases b <;> rfl
  | factorial => rfl
  | closeBracket => rfl
  | number _ _ | name _ _ _ | call _ | plus | minus | openBracket => cases hf

/-- No token begins with a space. -/
theorem spelled_head_ne_space {t : Token} {word : List Char} (h : t.Spelled word) :
    ∃ c cs, word = c :: cs ∧ c ≠ ' ' := by
  have letters : ∀ cs : List Char, cs ≠ [] → (∀ c ∈ cs, isLetter c) →
      ∃ d ds, cs = d :: ds ∧ d ≠ ' ' := by
    intro cs hne hcs
    obtain ⟨d, ds, rfl⟩ := List.exists_cons_of_ne_nil hne
    refine ⟨d, ds, rfl, ?_⟩
    rintro rfl
    exact absurd (hcs ' ' List.mem_cons_self) (by decide)
  cases h with
  | number hl _ =>
    obtain ⟨c, cs, hc, hstart⟩ := Literal.exists_spelling_eq_cons hl
    refine ⟨c, cs, hc, ?_⟩
    rintro rfl
    exact absurd hstart (by decide)
  | name hne hcs _ => exact letters _ hne hcs
  | call f => exact letters _ f.symbol_ne_nil f.isLetter_of_mem_symbol
  | plus | minus | factorial | openBracket | closeBracket => exact ⟨_, [], rfl, by decide⟩
  | binary b => exact ⟨b.char, [], rfl, by cases b <;> decide⟩

theorem skipSpaces_append {blanks rest : List Char} (pos : Nat) (hb : ∀ c ∈ blanks, c = ' ')
    (hr : ∀ c ∈ rest.head?, c ≠ ' ') :
    skipSpaces ⟨pos, blanks ++ rest⟩ = ⟨pos + blanks.length, rest⟩ := by
  have hspan := span_append (p := fun d => decide (d = ' '))
    (fun c hc => decide_eq_true (hb c hc)) (fun c hc => decide_eq_false (hr c hc))
  rw [skipSpaces, hspan.1, hspan.2]

theorem skipSpaces_spelled {t : Token} {blanks word rest : List Char} (pos : Nat)
    (hb : ∀ c ∈ blanks, c = ' ') (h : t.Spelled word) :
    skipSpaces ⟨pos, blanks ++ word ++ rest⟩ = ⟨pos + blanks.length, word ++ rest⟩ := by
  obtain ⟨c, cs, rfl, hc⟩ := spelled_head_ne_space h
  rw [List.append_assoc]
  refine skipSpaces_append pos hb ?_
  rintro _ ⟨⟩
  exact hc

/-- **A token that is written is read.** -/
theorem readToken_spelled {e : Expected} {t : Token} {blanks word rest : List Char} (pos : Nat)
    (hb : ∀ c ∈ blanks, c = ' ') (h : t.Spelled word) (hf : t.fits e)
    (hw : t.isWord → ∀ c ∈ rest.head?, isLetter c = false)
    (hn : ∀ l : Literal, l.IsNumber → t = .number l.value → word = l.spelling → l.Stops rest) :
    readToken ⟨pos, blanks ++ word ++ rest⟩ e
      = .ok (some t, ⟨pos + blanks.length + word.length, rest⟩) := by
  rw [readToken.eq_def, skipSpaces_spelled pos hb h]
  cases e with
  | operand => exact operandToken_spelled _ h hf hw hn
  | operator => exact congrArg Except.ok (operatorToken_spelled _ h hf)

theorem readToken_blanks {blanks : List Char} (pos : Nat) (e : Expected)
    (hb : ∀ c ∈ blanks, c = ' ') :
    readToken ⟨pos, blanks⟩ e = .ok (none, ⟨pos + blanks.length, []⟩) := by
  have hskip : skipSpaces ⟨pos, blanks⟩ = ⟨pos + blanks.length, []⟩ := by
    conv => lhs; rw [← List.append_nil blanks]
    exact skipSpaces_append pos hb fun c hc => by cases hc
  rw [readToken.eq_def, hskip]
  cases e <;> rfl

end Cursor

/-! ## All tokens -/

namespace Tokens

theorem read_some {e : Expected} {c c' : Cursor} {t : Token}
    (h : c.readToken e = .ok (some t, c')) :
    read e c = ⟨⟨t, c.skipSpaces.pos⟩ :: (read (e.after t) c').list,
      (read (e.after t) c').ending⟩ := by
  rw [read]
  split
  · next h' => rw [h] at h'; cases h'
  · next h' => rw [h] at h'; cases h'
  · next h' => rw [h] at h'; cases h'; rfl

theorem read_none {e : Expected} {c c' : Cursor} (h : c.readToken e = .ok (none, c')) :
    read e c = ⟨[], .stopped e c'⟩ := by
  rw [read]
  split
  · next h' => rw [h] at h'; cases h'
  · next h' => rw [h] at h'; cases h'; rfl
  · next h' => rw [h] at h'; cases h'

theorem read_error {e : Expected} {c : Cursor} {error : CompileError}
    (h : c.readToken e = .error error) : read e c = ⟨[], .failed error⟩ := by
  rw [read]
  split
  · next h' => rw [h] at h'; cases h'; rfl
  · next h' => rw [h] at h'; cases h'
  · next h' => rw [h] at h'; cases h'

/-- The spaces before the rest of a text. -/
theorem exists_blanks (c : Cursor) :
    ∃ blanks, (∀ d ∈ blanks, d = ' ') ∧ c.rest = blanks ++ c.skipSpaces.rest ∧
      c.skipSpaces.pos = c.pos + blanks.length := by
  refine ⟨c.rest.takeWhile (· = ' '), ?_, ?_, rfl⟩
  · intro d hd
    simpa using List.all_eq_true.mp List.all_takeWhile d hd
  · exact List.takeWhile_append_dropWhile.symm

/-- **The tokens that are read split the text**, if they go on to its end; and each of them may
stand where it stands. -/
theorem splits_read {e e' : Expected} {c c' : Cursor} (h : (read e c).ending = .stopped e' c') :
    e.through ((read e c).list.map Located.token) = some e' ∧
      (c'.rest = [] → Splits c.rest ((read e c).list.map Located.token)) := by
  induction e, c using read.induct with
  | case1 e c error herr =>
    rw [read_error herr] at h
    cases h
  | case2 e c d hd =>
    rw [read_none hd] at h ⊢
    cases h
    refine ⟨rfl, ?_⟩
    intro hnil
    obtain ⟨blanks, hb, hrest, -⟩ := exists_blanks c
    rw [Cursor.readToken_none hd] at hnil
    rw [hrest, hnil, List.append_nil]
    exact .nil hb
  | case3 e c t d ht ih =>
    rw [read_some ht] at h ⊢
    obtain ⟨hthrough, hsplits⟩ := ih h
    obtain ⟨hfits, ⟨word, hword, hcs⟩, hstops, -⟩ := Cursor.leads_readToken ht
    refine ⟨?_, ?_⟩
    · rw [List.map_cons, Expected.through, if_pos hfits]
      exact hthrough
    · intro hnil
      obtain ⟨blanks, hb, hrest, -⟩ := exists_blanks c
      rw [hrest, hcs, ← List.append_assoc]
      exact .cons hb hword hstops (hsplits hnil)

/-- What may follow an operand does not go on with a number. -/
theorem ends_of_splits {cs : List Char} {ts : List Token} {e : Expected} (h : Splits cs ts)
    (ht : Expected.operator.through ts = some e) : Literal.Ends cs := by
  have space : ∀ {blanks rest : List Char}, (∀ c ∈ blanks, c = ' ') → Literal.Ends rest →
      Literal.Ends (blanks ++ rest) := by
    intro blanks rest hb hr
    cases blanks with
    | nil => exact hr
    | cons c blanks =>
      rintro _ ⟨⟩
      rw [hb c List.mem_cons_self]
      decide
  cases h with
  | nil hb =>
    rw [← List.append_nil cs]
    exact space hb fun c hc => by cases hc
  | @cons blanks word rest t ts hb hword _ _ =>
    rw [List.append_assoc]
    refine space hb ?_
    rw [Expected.through] at ht
    split at ht
    · next hf =>
      cases hword with
      | binary b => rintro _ ⟨⟩; cases b <;> decide
      | factorial | closeBracket => rintro _ ⟨⟩; decide
      | number _ _ | name _ _ _ | call _ | plus | minus | openBracket => cases hf
    · cases ht

/-- **A text that splits into tokens is read as these tokens**, if each of them may stand where it
stands and an operator is expected at the end. -/
theorem read_splits {cs : List Char} {ts : List Token} {e : Expected} (h : Splits cs ts)
    (ht : e.through ts = some .operator) (pos : Nat) :
    (read e ⟨pos, cs⟩).list.map Located.token = ts ∧
      ∃ p, (read e ⟨pos, cs⟩).ending = .stopped .operator ⟨p, []⟩ := by
  induction h generalizing e pos with
  | @nil blanks hb =>
    cases ht
    rw [read_none (Cursor.readToken_blanks pos .operator hb)]
    exact ⟨rfl, _, rfl⟩
  | @cons blanks word rest t ts hb hword hstops hrest ih =>
    rw [Expected.through] at ht
    split at ht
    · next hf =>
      -- behind a number an operator is expected
      have hn : ∀ l : Literal, l.IsNumber → t = .number l.value → word = l.spelling →
          l.Stops rest := by
        rintro l _ rfl _
        cases e <;> cases hf
        exact (ends_of_splits hrest ht).stops l
      rw [read_some (Cursor.readToken_spelled pos hb hword hf hstops hn)]
      obtain ⟨hlist, hending⟩ := ih ht (pos + blanks.length + word.length)
      exact ⟨congrArg (t :: ·) hlist, hending⟩
    · cases ht

end Tokens

end Formula
