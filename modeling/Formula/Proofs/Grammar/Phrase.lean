import Formula.Proofs.Grammar.Tree

/-!
# The grammar of formulas

    expr     := term (('+' | '-') term)*
    term     := power (('*' | '/') power)*
    power    := prefixed ('^' power)?
    prefixed := ('+' | '-' | function) prefixed | atom '!'*
    atom     := number | name | '(' expr ')'

A repetition groups to the left, so the rules below take the last operand off first; a power groups
to the right. A sign or a function takes all of the prefixed phrase behind it: `-a!` is `-(a!)`, and
`-a^b` is `(-a)^b`.

## Phrases from left to right

Whether tokens are a formula can be seen token by token. Between two tokens it only matters whether
an operand or an operator is expected and how many brackets are open (`Beginning`). What stands
within the innermost open bracket is either a whole expression, or it becomes one with any prefixed
phrase behind it.
-/

namespace Formula

/-- The kinds of phrases, the loosest first. -/
inductive Category where
  | expr
  | term
  | power
  | prefixed
  | suffixed
  | atom
  deriving DecidableEq

/-- The tokens of a phrase of the given kind, and its tree. -/
inductive Phrase : Category → List Token → Tree → Prop where
  | ofTerm {ts t} : Phrase .term ts t → Phrase .expr ts t
  | sum {b ts us l r} : b = .add ∨ b = .subtract → Phrase .expr ts l → Phrase .term us r →
    Phrase .expr (ts ++ .op (.binary b) :: us) (.binary b l r)
  | ofPower {ts t} : Phrase .power ts t → Phrase .term ts t
  | product {b ts us l r} : b = .multiply ∨ b = .divide → Phrase .term ts l → Phrase .power us r →
    Phrase .term (ts ++ .op (.binary b) :: us) (.binary b l r)
  | ofPrefixed {ts t} : Phrase .prefixed ts t → Phrase .power ts t
  | raise {ts us l r} : Phrase .prefixed ts l → Phrase .power us r →
    Phrase .power (ts ++ .op (.binary .power) :: us) (.binary .power l r)
  | ofSuffixed {ts t} : Phrase .suffixed ts t → Phrase .prefixed ts t
  | sign {u ts t} : u ≠ .factorial → Phrase .prefixed ts t →
    Phrase .prefixed (.op (.unary u) :: ts) (.unary u t)
  | ofAtom {ts t} : Phrase .atom ts t → Phrase .suffixed ts t
  | factorial {ts t} : Phrase .suffixed ts t →
    Phrase .suffixed (ts ++ [.op (.unary .factorial)]) (.unary .factorial t)
  | number (v) : Phrase .atom [.number v] (.number v)
  | name (word) : Phrase .atom [.name word] (.name word)
  | bracket {ts t} : Phrase .expr ts t → Phrase .atom (.openBracket :: ts ++ [.closeBracket]) t

/-! ## What is expected -/

/-- Whether a token may stand where an operand or an operator is expected. -/
def Token.fits : Expected → Token → Bool
  | .operand, .number _ | .operand, .name _ | .operand, .openBracket => true
  | .operand, .op (.unary u) => u ≠ .factorial
  | .operator, .op (.unary u) => u = .factorial
  | .operator, .op (.binary _) | .operator, .closeBracket => true
  | _, _ => false

/-- What is expected behind a row of tokens, if each of them may stand where it stands. -/
def Expected.through : Expected → List Token → Option Expected
  | e, [] => some e
  | e, t :: ts => if t.fits e then (e.after t).through ts else none

theorem Expected.through_append (e : Expected) (ts us : List Token) :
    e.through (ts ++ us) = (e.through ts).bind (·.through us) := by
  induction ts generalizing e with
  | nil => rfl
  | cons t ts ih =>
    rw [List.cons_append, through, through]
    split
    · exact ih (e.after t)
    · rfl

/-- **A phrase begins where an operand is expected, and an operator is expected behind it.** -/
theorem Phrase.through {k : Category} {ts : List Token} {t : Tree} (h : Phrase k ts t) :
    Expected.operand.through ts = some .operator := by
  induction h with
  | ofTerm _ ih | ofPower _ ih | ofPrefixed _ ih | ofSuffixed _ ih | ofAtom _ ih => exact ih
  | sum _ _ _ ihl ihr | product _ _ _ ihl ihr | raise _ _ ihl ihr =>
    rw [Expected.through_append, ihl]
    exact ihr
  | sign hu _ ih =>
    rw [Expected.through, if_pos (by simp [Token.fits, hu])]
    exact ih
  | factorial _ ih =>
    rw [Expected.through_append, ih]
    rfl
  | number v => rfl
  | name word => rfl
  | @bracket ts t _ ih =>
    rw [Expected.through_append]
    show (Expected.operand.through ts).bind _ = _
    rw [ih]
    rfl

/-! ## Longer phrases -/

/-- How tightly a kind of phrase holds together; operators of a lower priority do not stand in it
outside of brackets. -/
def Category.level : Category → Nat
  | .expr => 1
  | .term => 2
  | .power => 3
  | .prefixed => 4
  | .suffixed => 5
  | .atom => 6

theorem BinaryOp.priority_le (b : BinaryOp) : (Op.binary b).priority ≤ 3 := by
  cases b <;> decide

theorem BinaryOp.isSum_of_priority {b : BinaryOp} (h : ¬2 ≤ (Op.binary b).priority) :
    b = .add ∨ b = .subtract := by
  cases b <;> simp_all [Op.priority]

theorem BinaryOp.isProduct_of_priority {b : BinaryOp} (h2 : 2 ≤ (Op.binary b).priority)
    (h3 : ¬3 ≤ (Op.binary b).priority) : b = .multiply ∨ b = .divide := by
  cases b <;> simp_all [Op.priority]

theorem BinaryOp.eq_power_of_priority {b : BinaryOp} (h : 3 ≤ (Op.binary b).priority) :
    b = .power := by
  cases b <;> simp_all [Op.priority]

namespace Phrase

variable {k : Category} {ts us : List Token} {t r : Tree}

/-- A factorial can follow any phrase: it goes to the last suffixed phrase in it. -/
theorem append_factorial (h : Phrase k ts t) (hk : k ≠ .atom) :
    ∃ u, Phrase k (ts ++ [.op (.unary .factorial)]) u := by
  induction h with
  | ofTerm _ ih => obtain ⟨u, hu⟩ := ih (by decide); exact ⟨u, .ofTerm hu⟩
  | ofPower _ ih => obtain ⟨u, hu⟩ := ih (by decide); exact ⟨u, .ofPower hu⟩
  | ofPrefixed _ ih => obtain ⟨u, hu⟩ := ih (by decide); exact ⟨u, .ofPrefixed hu⟩
  | ofSuffixed _ ih => obtain ⟨u, hu⟩ := ih (by decide); exact ⟨u, .ofSuffixed hu⟩
  | sum hb hl _ _ ihr =>
    -- the last suffixed phrase is in the operand on the right
    obtain ⟨u, hu⟩ := ihr (by decide)
    rw [List.append_assoc, List.cons_append]
    exact ⟨_, .sum hb hl hu⟩
  | product hb hl _ _ ihr =>
    obtain ⟨u, hu⟩ := ihr (by decide)
    rw [List.append_assoc, List.cons_append]
    exact ⟨_, .product hb hl hu⟩
  | raise hl _ _ ihr =>
    obtain ⟨u, hu⟩ := ihr (by decide)
    rw [List.append_assoc, List.cons_append]
    exact ⟨_, .raise hl hu⟩
  | sign hu _ ih => obtain ⟨u, hu'⟩ := ih (by decide); exact ⟨_, .sign hu hu'⟩
  | ofAtom h => exact ⟨_, .factorial (.ofAtom h)⟩
  | factorial h => exact ⟨_, .factorial (.factorial h)⟩
  | number v => exact absurd rfl hk
  | name word => exact absurd rfl hk
  | bracket _ => exact absurd rfl hk

/-- A binary operator and a prefixed phrase can follow an expression, and also any looser phrase
that the operator may stand in: it finds its place at the right edge. -/
theorem append_binary {b : BinaryOp} (h : Phrase k ts t) (hb : k.level ≤ (Op.binary b).priority)
    (hr : Phrase .prefixed us r) : ∃ u, Phrase k (ts ++ .op (.binary b) :: us) u := by
  induction h with
  | ofTerm h ih =>
    by_cases h2 : 2 ≤ (Op.binary b).priority
    · obtain ⟨u, hu⟩ := ih h2
      exact ⟨u, .ofTerm hu⟩
    · -- a sum takes all that stands before it as its operand on the left
      exact ⟨_, .sum (BinaryOp.isSum_of_priority h2) (.ofTerm h) (.ofPower (.ofPrefixed hr))⟩
  | sum hb' hl h ihl ihr =>
    by_cases h2 : 2 ≤ (Op.binary b).priority
    · obtain ⟨u, hu⟩ := ihr h2
      rw [List.append_assoc, List.cons_append]
      exact ⟨_, .sum hb' hl hu⟩
    · exact ⟨_, .sum (BinaryOp.isSum_of_priority h2) (.sum hb' hl h) (.ofPower (.ofPrefixed hr))⟩
  | ofPower h ih =>
    by_cases h3 : 3 ≤ (Op.binary b).priority
    · obtain ⟨u, hu⟩ := ih h3
      exact ⟨u, .ofPower hu⟩
    · exact ⟨_, .product (BinaryOp.isProduct_of_priority hb h3) (.ofPower h) (.ofPrefixed hr)⟩
  | product hb' hl h ihl ihr =>
    by_cases h3 : 3 ≤ (Op.binary b).priority
    · obtain ⟨u, hu⟩ := ihr h3
      rw [List.append_assoc, List.cons_append]
      exact ⟨_, .product hb' hl hu⟩
    · exact ⟨_, .product (BinaryOp.isProduct_of_priority hb h3) (.product hb' hl h)
        (.ofPrefixed hr)⟩
  | ofPrefixed h =>
    rw [BinaryOp.eq_power_of_priority hb]
    exact ⟨_, .raise h (.ofPrefixed hr)⟩
  | raise hl h ihl ihr =>
    obtain ⟨u, hu⟩ := ihr hb
    rw [List.append_assoc, List.cons_append]
    exact ⟨_, .raise hl hu⟩
  | ofSuffixed _ | sign _ _ | ofAtom _ | factorial _ | number _ | name _ | bracket _ =>
    -- these phrases hold together more tightly than any binary operator
    have := b.priority_le
    simp only [Category.level] at hb
    omega

end Phrase

/-! ## Beginnings of formulas -/

/-- What stands within one pair of brackets so far: where an operator is expected an expression,
and where an operand is expected something that any prefixed phrase makes an expression. -/
def Expected.Within : Expected → List Token → Prop
  | .operator, ts => ∃ t, Phrase .expr ts t
  | .operand, ts => ∀ us r, Phrase .prefixed us r → ∃ t, Phrase .expr (ts ++ us) t

/-- The tokens up to the innermost of `n` open brackets. -/
inductive Opened : Nat → List Token → Prop where
  | zero : Opened 0 []
  | succ {n ts us} : Opened n ts → Expected.operand.Within us →
    Opened (n + 1) (ts ++ us ++ [.openBracket])

/-- The tokens of a beginning of a formula with `n` open brackets, before an operand or an
operator. -/
def Beginning (e : Expected) (n : Nat) (ts : List Token) : Prop :=
  ∃ ws us, ts = ws ++ us ∧ Opened n ws ∧ e.Within us

namespace Beginning

variable {n : Nat} {ts : List Token}

theorem within_nil : Expected.operand.Within [] :=
  fun _ r hr => ⟨r, .ofTerm (.ofPower (.ofPrefixed hr))⟩

theorem nil : Beginning .operand 0 [] := ⟨[], [], rfl, .zero, within_nil⟩

theorem atom (h : Beginning .operand n ts) {x : Token} {t : Tree} (hx : Phrase .atom [x] t) :
    Beginning .operator n (ts ++ [x]) := by
  obtain ⟨ws, us, rfl, hws, hus⟩ := h
  exact ⟨ws, us ++ [x], List.append_assoc .., hws, hus [x] t (.ofSuffixed (.ofAtom hx))⟩

theorem sign (h : Beginning .operand n ts) {u : UnaryOp} (hu : u ≠ .factorial) :
    Beginning .operand n (ts ++ [.op (.unary u)]) := by
  obtain ⟨ws, us, rfl, hws, hus⟩ := h
  refine ⟨ws, us ++ [.op (.unary u)], List.append_assoc .., hws, ?_⟩
  intro vs r hr
  rw [List.append_assoc]
  exact hus (.op (.unary u) :: vs) (.unary u r) (.sign hu hr)

theorem openBracket (h : Beginning .operand n ts) :
    Beginning .operand (n + 1) (ts ++ [.openBracket]) := by
  obtain ⟨ws, us, rfl, hws, hus⟩ := h
  exact ⟨ws ++ us ++ [.openBracket], [], (List.append_nil _).symm, .succ hws hus, within_nil⟩

theorem factorial (h : Beginning .operator n ts) :
    Beginning .operator n (ts ++ [.op (.unary .factorial)]) := by
  obtain ⟨ws, us, rfl, hws, t, ht⟩ := h
  obtain ⟨u, hu⟩ := ht.append_factorial (by decide)
  exact ⟨ws, us ++ [.op (.unary .factorial)], List.append_assoc .., hws, u, hu⟩

theorem binary (h : Beginning .operator n ts) (b : BinaryOp) :
    Beginning .operand n (ts ++ [.op (.binary b)]) := by
  obtain ⟨ws, us, rfl, hws, t, ht⟩ := h
  refine ⟨ws, us ++ [.op (.binary b)], List.append_assoc .., hws, ?_⟩
  intro vs r hr
  have hb : Category.expr.level ≤ (Op.binary b).priority := by cases b <;> decide
  rw [List.append_assoc]
  exact ht.append_binary hb hr

theorem closeBracket (h : Beginning .operator (n + 1) ts) :
    Beginning .operator n (ts ++ [.closeBracket]) := by
  obtain ⟨ws, us, rfl, hws, t, ht⟩ := h
  cases hws with
  | @succ _ ws vs hws hvs =>
    -- with its brackets the expression is an atom, which what stood before the bracket waited for
    refine ⟨ws, vs ++ (.openBracket :: us ++ [.closeBracket]), by simp, hws, ?_⟩
    exact hvs _ t (.ofSuffixed (.ofAtom (.bracket ht)))

/-- Without an open bracket, and with no operand missing, the tokens are an expression. -/
theorem phrase (h : Beginning .operator 0 ts) : ∃ t, Phrase .expr ts t := by
  obtain ⟨ws, us, rfl, hws, hus⟩ := h
  cases hws with
  | zero => exact hus

/-- Where no operand is missing, closing the open brackets makes the tokens an expression. -/
theorem closeAll (h : Beginning .operator n ts) :
    ∃ t, Phrase .expr (ts ++ List.replicate n .closeBracket) t := by
  induction n generalizing ts with
  | zero => rw [List.replicate_zero, List.append_nil]; exact h.phrase
  | succ n ih =>
    obtain ⟨t, ht⟩ := ih h.closeBracket
    rw [List.append_assoc] at ht
    exact ⟨t, ht⟩

end Beginning

end Formula
