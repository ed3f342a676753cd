import Formula.Op
import Formula.Token.Literal

/-!
# Tokens

A formula is read token by token. What a character means depends on whether an operand or an
operator is expected: where an operand is expected, `-` is a sign, and where an operator is
expected, it is a subtraction. Which of the two is expected next depends on the tokens so far only
through what was expected and the token that came.
-/

namespace Formula

inductive Token where
  | number (value : Double)
  | name (word : String)
  | op (o : Op)
  | openBracket
  | closeBracket
  deriving DecidableEq

/-- What a formula continues with: an operand with what may stand before it, or an operator with
what may stand behind an operand. -/
inductive Expected where
  | operand
  | operator
  deriving DecidableEq

/-- What is expected after a token. Brackets and unary operators leave it as it is. -/
def Expected.after (e : Expected) : Token → Expected
  | .number _ | .name _ => .operator
  | .op (.binary _) => .operand
  | .op (.unary _) | .openBracket | .closeBracket => e

def isLetter (c : Char) : Bool := ('a' ≤ c && c ≤ 'z') || ('A' ≤ c && c ≤ 'Z')

/-! ## One token -/

/-- The token of a word: a function if it names one, else a variable. -/
def Token.ofWord (word : String) : Token :=
  match NamedFunction.ofWord? word with
  | some f => .op (.unary (.call f))
  | none => .name word

namespace Cursor

/-- Reads an operand token at a character that is not a space. -/
def operandToken (c : Cursor) : Except CompileError (Option Token × Cursor) :=
  match c.rest with
  | [] => .ok (none, c)
  | ch :: _ =>
    if ch = '(' then .ok (some .openBracket, c.advance 1)
    else if startsNumber ch then
      match c.readNumber with
      | .ok (v, c) => .ok (some (.number v), c)
      | .error e => .error e
    else if isLetter ch then
      let word := c.rest.takeWhile isLetter
      .ok (some (.ofWord (String.ofList word)), c.advance word.length)
    else if ch = '-' then .ok (some (.op (.unary .minus)), c.advance 1)
    else if ch = '+' then .ok (some (.op (.unary .plus)), c.advance 1)
    else .ok (none, c)

/-- Reads an operator token at a character that is not a space. -/
def operatorToken (c : Cursor) : Option Token × Cursor :=
  match c.rest with
  | [] => (none, c)
  | ch :: _ =>
    match BinaryOp.ofChar? ch with
    | some b => (some (.op (.binary b)), c.advance 1)
    | none =>
      if ch = ')' then (some .closeBracket, c.advance 1)
      else if ch = '!' then (some (.op (.unary .factorial)), c.advance 1)
      else (none, c)

/-- Reads the next token: past the spaces, the token and the cursor behind it. Where no token of the
expected kind stands, the cursor stays behind the spaces. -/
def readToken (c : Cursor) : Expected → Except CompileError (Option Token × Cursor)
  | .operand => c.skipSpaces.operandToken
  | .operator => .ok c.skipSpaces.operatorToken

/-! ## A token uses up characters -/

theorem operandToken_length {c c' : Cursor} {t : Token} (h : c.operandToken = .ok (some t, c')) :
    c'.rest.length < c.rest.length := by
  unfold operandToken at h
  split at h
  · simp at h
  · next ch cs hc =>
    have hpos : 0 < c.rest.length := by rw [hc]; exact Nat.succ_pos _
    have step : ∀ n, 0 < n → (c.advance n).rest.length < c.rest.length := fun n hn => by
      rw [length_advance]; omega
    split at h
    · injection h with h; injection h with _ h; exact h ▸ step 1 (by decide)
    split at h
    · next hs =>
      unfold readNumber at h
      simp only at h
      split at h
      · next v d hd =>
        split at hd
        · cases hd
        · injection hd with hd; injection hd with _ hd
          injection h with h; injection h with _ h
          subst h; subst hd
          refine step _ ?_
          rw [hc]; exact Literal.spelling_ne_nil_of_starts cs hs
      · cases h
    split at h
    · next hl =>
      injection h with h; injection h with _ h
      subst h
      refine step _ ?_
      rw [hc, List.takeWhile_cons, if_pos hl]; exact Nat.succ_pos _
    split at h
    · injection h with h; injection h with _ h; exact h ▸ step 1 (by decide)
    split at h
    · injection h with h; injection h with _ h; exact h ▸ step 1 (by decide)
    · injection h with h; injection h with h _; cases h

theorem operatorToken_length {c c' : Cursor} {t : Token} (h : c.operatorToken = (some t, c')) :
    c'.rest.length < c.rest.length := by
  unfold operatorToken at h
  split at h
  · simp at h
  · next ch cs hc =>
    have hpos : 0 < c.rest.length := by rw [hc]; exact Nat.succ_pos _
    have step : (c.advance 1).rest.length < c.rest.length := by rw [length_advance]; omega
    split at h
    · injection h with _ h; exact h ▸ step
    · split at h
      · injection h with _ h; exact h ▸ step
      · split at h
        · injection h with _ h; exact h ▸ step
        · injection h with h _; cases h

theorem readToken_length {c c' : Cursor} {e : Expected} {t : Token}
    (h : c.readToken e = .ok (some t, c')) : c'.rest.length < c.rest.length := by
  cases e with
  | operand => exact Nat.lt_of_lt_of_le (operandToken_length h) (length_skipSpaces_le c)
  | operator =>
    injection h with h
    exact Nat.lt_of_lt_of_le (operatorToken_length h) (length_skipSpaces_le c)

end Cursor

end Formula
