import Formula.Proofs.Expression.Compiled
import Formula.Proofs.Grammar.Bracketed
import Formula.Proofs.Grammar.Groups
import Formula.Proofs.Grammar.Substitution
import Formula.Proofs.Program.Spans

/-!
# Names for parts of a formula

A number in a formula, or a group in brackets, is an operand by itself: whatever stands around it is
grouped in the same way as around a name. So a name can take its place. Then the formula has the
same value as before, if the name is set to the value of the part (`eval_ofText_replaced`).

The slots of all later names move, and constants are folded in the one formula that are not in the
other. Neither matters, because the value of a formula is that of its tree, in which names stand for
their values (`Expression.eval_setAll_of_isReading`).
-/

namespace Formula

/-! ## Parts -/

/-- A token that is read in a text, from one position to another. -/
def TokenAt (text : String) (t : Token) (start stop : Nat) : Prop :=
  ∃ ls e c d, Reads .operand (Cursor.ofText text 0) ls e c ∧ c.readToken e = .ok (some t, d) ∧
    c.skipSpaces.pos = start ∧ d.pos = stop

/-- A part of a text that is a number literal, or a bracket with its match and all between them. -/
structure IsPart (text : String) (before part after : List Char) : Prop where
  text_eq : text.toList = before ++ part ++ after
  operand : (∃ v, TokenAt text (.number v) before.length (before ++ part).length) ∨
    ∃ inside, part = '(' :: inside ++ [')'] ∧ Balanced inside

/-- Between two brackets an operand is expected first, and none is missing at the end. -/
theorem Expected.through_inside {e : Expected} {us vs ws : List Token}
    (h : Expected.operand.through (us ++ .openBracket :: (vs ++ .closeBracket :: ws)) = some e) :
    Expected.operand.through vs = some .operator := by
  rw [through_append] at h
  obtain ⟨e₁, -, h⟩ := Option.bind_eq_some_iff.mp h
  cases e₁ with
  | operator => cases h
  | operand =>
    have hrest : Expected.operand.through (vs ++ .closeBracket :: ws) = some e := h
    rw [through_append] at hrest
    obtain ⟨e₂, hvs, hrest⟩ := Option.bind_eq_some_iff.mp hrest
    cases e₂ with
    | operator => exact hvs
    | operand => cases hrest

namespace IsReading

variable {text : String} {t : Tree} {before part after : List Char}

/-- A number literal is a token of the text. -/
theorem exists_number (ht : IsReading text t) (htext : text.toList = before ++ part ++ after)
    {v : Double} (hv : TokenAt text (.number v) before.length (before ++ part).length) :
    ∃ us ws, Formula.tokensOf text = us ++ [.number v] ++ ws ∧ Splits before us ∧
      Splits part [.number v] ∧ Splits after ws := by
  obtain ⟨ls, e, c, d, hreads, hread, hstart, hstop⟩ := hv
  obtain ⟨-, ⟨word, hword, hlead⟩, -, -⟩ := Cursor.leads_readToken hread
  obtain ⟨rfl, hafter⟩ : part = word ∧ after = d.rest := by
    have hrest := hreads.drop_eq
    rw [hstart, htext, List.append_assoc, List.drop_left, hlead] at hrest
    have hpos := Cursor.pos_eq_of_readToken hread hlead
    rw [hstop, hstart, List.length_append] at hpos
    exact List.append_inj hrest (Nat.add_left_cancel hpos)
  have hbefore := hreads.splits_take
  rw [hstart, htext, List.append_assoc, List.take_left] at hbefore
  have hbehind := hreads.append (.cons hread .nil)
  obtain ⟨⟨p, hending⟩, -⟩ := ht.exists_of_reads hbehind
  refine ⟨ls.map Located.token, _, ?_, hbefore, splits_of_spelled hword,
    hafter ▸ (Tokens.splits_read hending).2 rfl⟩
  have hlist := congrArg (fun ts => ts.list.map Located.token) hbehind.read_eq
  simp only [List.map_append] at hlist
  exact hlist

/-- A group in brackets is a bracketed expression. -/
theorem exists_group (ht : IsReading text t) {inside : List Char}
    (htext : text.toList = before ++ ('(' :: inside ++ [')']) ++ after)
    (hinside : Balanced inside) :
    ∃ us atom ws u, Formula.tokensOf text = us ++ atom ++ ws ∧ Phrase .atom atom u ∧
      Splits before us ∧ Splits ('(' :: inside ++ [')']) atom ∧ Splits after ws := by
  obtain ⟨hsplits, hphrase⟩ := ht.tokensOf
  have hbrackets : text.toList = before ++ '(' :: (inside ++ ')' :: after) := by
    rw [htext]
    simp
  rw [hbrackets] at hsplits
  obtain ⟨us, rest, htokens, hus, hrest⟩ := Splits.exists_of_bracket .openBracket hsplits
  obtain ⟨vs, ws, rfl, hvs, hws⟩ := Splits.exists_of_bracket .closeBracket hrest
  have hthrough := hphrase.through
  rw [htokens] at hthrough
  obtain ⟨u, hu⟩ := hvs.exists_phrase hinside (Expected.through_inside hthrough)
  refine ⟨us, .openBracket :: vs ++ [.closeBracket], ws, u, ?_, .bracket hu, hus, ?_, hws⟩
  · rw [htokens]
    simp
  · have hclose := hvs.append (splits_of_spelled .closeBracket) (by rintro _ ⟨⟩; decide)
    show Splits ([] ++ ['('] ++ (inside ++ [')'])) (.openBracket :: (vs ++ [.closeBracket]))
    exact .cons nofun .openBracket nofun hclose

/-- **A part is an atom of the formula.** -/
theorem exists_atom (ht : IsReading text t) (hpart : IsPart text before part after) :
    ∃ us atom ws u, Formula.tokensOf text = us ++ atom ++ ws ∧ Phrase .atom atom u ∧
      Splits before us ∧ Splits part atom ∧ Splits after ws := by
  obtain ⟨htext, ⟨v, hv⟩ | ⟨inside, rfl, hinside⟩⟩ := hpart
  · obtain ⟨us, ws, htokens, hus, hv, hws⟩ := ht.exists_number htext hv
    exact ⟨us, [.number v], ws, .number v, htokens, .number v, hus, hv, hws⟩
  · exact ht.exists_group htext hinside

/-- **A new name may stand for a part of a formula.** -/
theorem exists_replaced (ht : IsReading text t) (hpart : IsPart text before part after) {x : String}
    (hx : (Token.name x).Readable) (hnew : .name x ∉ Formula.tokensOf text) :
    ∃ t' u, IsReading (String.ofList part) u ∧
      IsReading (String.ofList (before ++ ' ' :: x.toList ++ ' ' :: after)) t' ∧
      t = t'.substitute (Function.update Tree.name x u) := by
  obtain ⟨us, atom, ws, u, htokens, hatom, hus, hpart, hws⟩ := ht.exists_atom hpart
  have hphrase := ht.tokensOf.2
  rw [htokens] at hphrase hnew
  obtain ⟨t', ht', heq⟩ := hphrase.exists_name_for_atom hatom hnew
  refine ⟨t', u, ⟨atom, ?_, .exprOfSuffixed (.ofAtom hatom)⟩, ⟨_, ?_, ht'⟩, heq⟩
  · rwa [String.toList_ofList]
  · rw [String.toList_ofList, List.append_assoc]
    have hspace : ∀ c ∈ [' '], c = ' ' := fun c hc => List.mem_singleton.mp hc
    have hname : Splits ([' '] ++ x.toList ++ ' ' :: after) (.name x :: ws) := by
      refine .cons hspace hx.spelled ?_ (hws.blanks hspace)
      rintro - _ ⟨⟩
      decide
    exact hus.append hname (by rintro _ ⟨⟩; decide)

end IsReading

/-! ## Values -/

/-- One more binding gives one more name its value. -/
theorem Expression.given_append (bindings : List (String × Double)) (x : String) (v : Double) :
    given (bindings ++ [(x, v)]) = Function.update (given bindings) x v := by
  funext name
  unfold given
  rw [List.reverse_append, List.reverse_singleton, List.singleton_append]
  by_cases hname : name = x
  · rw [hname, List.lookup_cons_self, Function.update_self]
    rfl
  · rw [List.lookup_cons, beq_false_of_ne hname, Function.update_of_ne hname]

/--
**A part of a formula may be replaced by a name that stands for its value.**

The part is a number literal or a group in brackets, and the name, with spaces around it, is one
that the formula does not read. Then the part by itself compiles, and so does the formula with the
name in its place. Whatever the variables are set to, the formula has the value of the other one
with the name set to the value of the part. Each of the three may be compiled with or without
folding.
-/
theorem eval_ofText_replaced (K : Kernels) (fold foldPart fold' : Bool) {text : String}
    {before part after : List Char} {x : String} {e : Expression}
    (he : Expression.ofText K fold text = .ok e) (hpart : IsPart text before part after)
    (hx : (Token.name x).Readable) (hnew : .name x ∉ tokensOf text) :
    ∃ g e', Expression.ofText K foldPart (String.ofList part) = .ok g ∧
      Expression.ofText K fold' (String.ofList (before ++ ' ' :: x.toList ++ ' ' :: after))
        = .ok e' ∧
      ∀ bindings, ∃ v w, (e.setAll bindings).eval K = .ok v ∧
        (g.setAll bindings).eval K = .ok w ∧ ((e'.setAll bindings).set x w).eval K = .ok v := by
  obtain ⟨-, hprogram, -⟩ := Expression.ofText_eq_ok_iff.mp he
  obtain ⟨t, ht⟩ := exists_isReading_of_compile .withConstants hprogram
  obtain ⟨t', u, hu, ht', rfl⟩ := ht.exists_replaced hpart hx hnew
  obtain ⟨f, hf, heval⟩ := Expression.eval_setAll_of_isReading K fold ht
  obtain ⟨g, hg, hgeval⟩ := Expression.eval_setAll_of_isReading K foldPart hu
  obtain ⟨e', he', heval'⟩ := Expression.eval_setAll_of_isReading K fold' ht'
  obtain rfl : f = e := Except.ok.inj (hf.symm.trans he)
  refine ⟨g, e', hg, he', fun bindings => ⟨_, _, heval bindings, hgeval bindings, ?_⟩⟩
  have hset : (e'.setAll bindings).set x (u.eval K (Expression.given bindings))
      = e'.setAll (bindings ++ [(x, u.eval K (Expression.given bindings))]) := by
    show _ = { e' with table := List.foldl _ _ _ }
    rw [List.foldl_append]
    rfl
  rw [hset, heval', Expression.given_append, Tree.eval_substitute_update]

/-- A group with a factorial behind it. -/
theorem eval_ofText_replaced_group :
    ∃ e g e', Expression.ofText .standard true "2*(x + 1)!" = .ok e ∧
      Expression.ofText .standard false "(x + 1)" = .ok g ∧
      Expression.ofText .standard true "2* s !" = .ok e' ∧
      ∃ v w, (e.setAll [("x", .ofNat 4)]).eval .standard = .ok v ∧
        (g.setAll [("x", .ofNat 4)]).eval .standard = .ok w ∧
        ((e'.setAll [("x", .ofNat 4)]).set "s" w).eval .standard = .ok v := by
  have hprogram : (compile ⟨.standard, true⟩ "2*(x + 1)!" .withConstants).program
      = .ok [.push (.ofNat 2), .load 7 "x", .push (.ofNat 1), .apply (.binary .add),
        .apply (.unary .factorial), .apply (.binary .multiply)] := by
    decide +kernel
  have he : Expression.ofText .standard true "2*(x + 1)!" = .ok ⟨_, _, _⟩ :=
    Expression.ofText_eq_ok_iff.mpr ⟨rfl, hprogram, rfl⟩
  have hinside : Balanced ['x', ' ', '+', ' ', '1'] := .of_ne (by simp)
  have hpart : IsPart "2*(x + 1)!" ['2', '*'] ('(' :: ['x', ' ', '+', ' ', '1'] ++ [')']) ['!'] :=
    ⟨rfl, .inr ⟨_, rfl, hinside⟩⟩
  have hname : (Token.name "s").Readable :=
    ⟨by decide, List.all_eq_true.mp (by decide), by decide⟩
  have hnew : .name "s" ∉ tokensOf "2*(x + 1)!" := by decide +kernel
  obtain ⟨g, e', hg, he', heval⟩ :=
    eval_ofText_replaced .standard true false true he hpart hname hnew
  exact ⟨_, g, e', he, hg, he', heval [("x", .ofNat 4)]⟩

end Formula
