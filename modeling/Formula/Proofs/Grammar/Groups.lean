import Formula.Proofs.Grammar.Brackets
import Formula.Proofs.Token.Reading

/-!
# Groups in brackets

A bracket is a token by itself wherever it stands, so a text splits at each of its brackets
(`Splits.exists_of_bracket`). If the brackets between two brackets have their matches, the tokens
there are an expression as soon as an operand is expected before them and none is missing behind
(`Splits.exists_phrase`).
-/

namespace Formula

/-! ## Splitting in two -/

namespace Splits

variable {cs ds : List Char} {ts us : List Token}

theorem append (h : Splits cs ts) (h' : Splits ds us) (hl : ∀ c ∈ ds.head?, isLetter c = false) :
    Splits (cs ++ ds) (ts ++ us) := by
  induction h with
  | nil hb => exact h'.blanks hb
  | @cons blanks word rest t ts hb hword hstops _ ih =>
    rw [List.append_assoc (blanks ++ word)]
    refine .cons hb hword ?_ ih
    intro hw c hc
    rcases rest with _ | ⟨d, rest⟩
    · exact hl c hc
    · exact hstops hw c hc

theorem exists_of_append (h : Splits cs (ts ++ us)) :
    ∃ cs₁ cs₂, cs = cs₁ ++ cs₂ ∧ Splits cs₁ ts ∧ Splits cs₂ us := by
  induction ts generalizing cs with
  | nil => exact ⟨[], cs, rfl, .nil nofun, h⟩
  | cons t ts ih =>
    cases h with
    | @cons blanks word rest _ _ hb hword hstops hrest =>
      obtain ⟨cs₁, cs₂, rfl, h1, h2⟩ := ih hrest
      refine ⟨blanks ++ word ++ cs₁, cs₂, (List.append_assoc ..).symm, .cons hb hword ?_ h1, h2⟩
      intro hw c hc
      rcases cs₁ with _ | ⟨d, cs₁⟩
      · cases hc
      · exact hstops hw c hc

end Splits

/-! ## Splitting at a bracket -/

/-- The character of a bracket and its token. -/
inductive IsBracket : Char → Token → Prop
  | openBracket : IsBracket '(' .openBracket
  | closeBracket : IsBracket ')' .closeBracket

namespace IsBracket

variable {b : Char} {x : Token}

theorem ne_space (h : IsBracket b x) : b ≠ ' ' := by
  cases h <;> decide

/-- Only the token of the bracket has the bracket in it. -/
theorem eq_of_mem (h : IsBracket b x) {t : Token} {word : List Char} (hword : t.Spelled word)
    (hb : b ∈ word) : word = [b] ∧ t = x := by
  have hbracket : ¬(b ≠ '(' ∧ b ≠ ')') := by
    cases h <;> decide
  cases hword with
  | number hl _ => exact absurd (hl.ne_bracket b hb) hbracket
  | name _ hcs _ => exact absurd (ne_bracket_of_isLetter (hcs b hb)) hbracket
  | call f => exact absurd (ne_bracket_of_isLetter (f.isLetter_of_mem_symbol b hb)) hbracket
  | plus | minus | factorial =>
    rw [List.mem_singleton.mp hb] at hbracket
    exact absurd (by decide) hbracket
  | binary o =>
    rw [List.mem_singleton.mp hb] at hbracket
    exact absurd (by cases o <;> decide) hbracket
  | openBracket =>
    cases h with
    | openBracket => exact ⟨rfl, rfl⟩
    | closeBracket => exact absurd (List.mem_singleton.mp hb) (by decide)
  | closeBracket =>
    cases h with
    | openBracket => exact absurd (List.mem_singleton.mp hb) (by decide)
    | closeBracket => exact ⟨rfl, rfl⟩

end IsBracket

theorem exists_of_append_eq {α : Type} {as bs cs ds : List α} {a : α} (h : as ++ bs = cs ++ a :: ds)
    (ha : a ∉ as) : ∃ es, cs = as ++ es ∧ bs = es ++ a :: ds := by
  rcases List.append_eq_append_iff.mp h with ⟨es, hcs, hbs⟩ | ⟨es, has, hds⟩
  · exact ⟨es, hcs, hbs⟩
  · cases es with
    | nil => exact ⟨[], by rw [has, List.append_nil, List.append_nil], hds.symm⟩
    | cons e es =>
      obtain ⟨rfl, -⟩ := List.cons.inj hds
      exact absurd (has ▸ List.mem_append_right cs List.mem_cons_self) ha

/-- **A text splits at each bracket.** -/
theorem Splits.exists_of_bracket {b : Char} {x : Token} (hb : IsBracket b x) {cs ds : List Char}
    {ts : List Token} (h : Splits (cs ++ b :: ds) ts) :
    ∃ us vs, ts = us ++ x :: vs ∧ Splits cs us ∧ Splits ds vs := by
  obtain ⟨all, hall⟩ : ∃ all, all = cs ++ b :: ds := ⟨_, rfl⟩
  rw [← hall] at h
  induction h generalizing cs with
  | nil hblanks =>
    have hmem : b ∈ cs ++ b :: ds := List.mem_append_right cs List.mem_cons_self
    exact absurd (hblanks b (hall ▸ hmem)) hb.ne_space
  | @cons blanks word rest t ts hblanks hword hstops hrest ih =>
    rw [List.append_assoc] at hall
    obtain ⟨es, rfl, hes⟩ := exists_of_append_eq hall fun hmem => hb.ne_space (hblanks b hmem)
    -- either this is the bracket, or it stands behind
    by_cases hhere : b ∈ word ∧ es = []
    · obtain ⟨hmem, rfl⟩ := hhere
      obtain ⟨rfl, rfl⟩ := hb.eq_of_mem hword hmem
      obtain ⟨-, rfl⟩ := List.cons.inj hes
      rw [List.append_nil]
      exact ⟨[], ts, rfl, .nil hblanks, hrest⟩
    · obtain ⟨fs, rfl, hfs⟩ : ∃ fs, es = word ++ fs ∧ rest = fs ++ b :: ds := by
        by_cases hmem : b ∈ word
        · obtain ⟨rfl, -⟩ := hb.eq_of_mem hword hmem
          obtain ⟨e, es, rfl⟩ := List.exists_cons_of_ne_nil fun hnil => hhere ⟨hmem, hnil⟩
          obtain ⟨rfl, hfs⟩ := List.cons.inj hes
          exact ⟨es, rfl, hfs⟩
        · exact exists_of_append_eq hes hmem
      obtain ⟨us, vs, rfl, hus, hvs⟩ := ih hfs
      refine ⟨t :: us, vs, rfl, ?_, hvs⟩
      rw [← List.append_assoc]
      refine .cons hblanks hword ?_ hus
      intro hw c hc
      rcases fs with _ | ⟨d, fs⟩
      · cases hc
      · exact hstops hw c (hfs ▸ hc)

/-! ## Between two brackets -/

theorem Balanced.of_ne {cs : List Char} (h : ∀ c ∈ cs, c ≠ '(' ∧ c ≠ ')') : Balanced cs := by
  induction cs with
  | nil => exact .nil
  | cons c cs ih =>
    obtain ⟨hopen, hclose⟩ := h c List.mem_cons_self
    exact .other hopen hclose (ih fun d hd => h d (List.mem_cons_of_mem c hd))

/-- One more open bracket before is at most one more behind. -/
theorem foldl_depthAfter_le {n m : Nat} (h : n ≤ m + 1) (cs : List Char) :
    cs.foldl depthAfter n ≤ cs.foldl depthAfter m + 1 := by
  induction cs generalizing n m with
  | nil => exact h
  | cons c cs ih =>
    refine ih ?_
    unfold depthAfter
    split
    · omega
    · split
      · omega
      · omega

/-- Where all brackets have their matches, none is closed that was not opened before. -/
theorem Balanced.depth_ne_zero {cs ds : List Char} (h : Balanced (cs ++ ')' :: ds)) :
    cs.foldl depthAfter 0 ≠ 0 := by
  intro hzero
  have hclose : ∀ n, n ≤ 1 → depthAfter n ')' = 0 := by
    intro n hn
    show n - 1 = 0
    omega
  have hone : cs.foldl depthAfter 1 ≤ 1 := by
    have hle := foldl_depthAfter_le (Nat.le_refl (0 + 1)) cs
    rwa [hzero] at hle
  -- with one bracket open before, none would be open behind
  have hfrom := h.foldl_depthAfter 1
  have hnone := h.foldl_depthAfter 0
  rw [List.foldl_append, List.foldl_cons, hclose _ hone] at hfrom
  rw [List.foldl_append, List.foldl_cons, hzero, hclose 0 (Nat.zero_le 1)] at hnone
  exact absurd (hnone.symm.trans hfrom) (by decide)

theorem Yard.exists_of_takeAll_eq_none {y : Yard} {ts : List Token} (h : y.takeAll ts = none) :
    ∃ us vs z, ts = us ++ .closeBracket :: vs ∧ y.takeAll us = some z ∧
      openCount z.pending = 0 := by
  induction ts generalizing y with
  | nil => cases h
  | cons t ts ih =>
    rw [takeAll] at h
    cases ht : y.take t with
    | none =>
      obtain ⟨rfl, hzero⟩ := take_eq_none ht
      exact ⟨[], ts, y, rfl, rfl, hzero⟩
    | some z =>
      rw [ht] at h
      obtain ⟨us, vs, w, rfl, hus, hzero⟩ := ih h
      refine ⟨t :: us, vs, w, rfl, ?_, hzero⟩
      rw [takeAll, ht]
      exact hus

/-- **Where all brackets have their matches, a yard takes all tokens** and has none open then. -/
theorem Splits.exists_takeAll_start {cs : List Char} {ts : List Token} (h : Splits cs ts)
    (hcs : Balanced cs) :
    ∃ y, Yard.start.takeAll ts = some y ∧ Yard.openCount y.pending = 0 := by
  cases hy : Yard.start.takeAll ts with
  | some y =>
    refine ⟨y, rfl, ?_⟩
    rw [← Yard.foldl_depthAfter_of_splits h hy]
    exact hcs.foldl_depthAfter 0
  | none =>
    obtain ⟨us, vs, z, rfl, hus, hzero⟩ := Yard.exists_of_takeAll_eq_none hy
    obtain ⟨cs₁, cs₂, rfl, h1, h2⟩ := h.exists_of_append
    cases h2 with
    | @cons blanks word rest _ _ hb hword _ _ =>
      cases hword
      have hdepth : cs₁.foldl depthAfter 0 = 0 :=
        (Yard.foldl_depthAfter_of_splits h1 hus).trans hzero
      have hspaces : (cs₁ ++ blanks).foldl depthAfter 0 = 0 := by
        rw [List.foldl_append, hdepth]
        refine foldl_depthAfter_of_ne (fun c hc => ?_) 0
        rw [hb c hc]
        decide
      have hclose : cs₁ ++ (blanks ++ [')'] ++ rest) = cs₁ ++ blanks ++ ')' :: rest := by simp
      rw [hclose] at hcs
      exact absurd hspaces hcs.depth_ne_zero

/-- **What stands between two brackets is an expression.** -/
theorem Splits.exists_phrase {cs : List Char} {ts : List Token} (h : Splits cs ts)
    (hcs : Balanced cs) (hthrough : Expected.operand.through ts = some .operator) :
    ∃ t, Phrase .expr ts t := by
  obtain ⟨y, hy, hzero⟩ := h.exists_takeAll_start hcs
  have hbeginning : Beginning .operator (Yard.openCount y.pending) ([] ++ ts) :=
    Yard.beginning_takeAll .nil hthrough hy
  rw [hzero, List.nil_append] at hbeginning
  exact hbeginning.phrase

end Formula
