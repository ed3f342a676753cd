import Formula.Program.Compile
import Formula.Proofs.Grammar.Phrase

/-!
# The order in which tokens are released

When a formula is compiled, operands are released at once and operators wait. Which operators a
token sets free depends on what waits, and on nothing that was released before. A yard is therefore
a compiler that only keeps the order of the tokens: it folds nothing and knows no table.

Main statement (`order_eq_some_iff`): tokens that stand where they may stand are released to the end
exactly if they are an expression, and then in the postorder of its tree. So an expression has one
tree (`Phrase.unique`).

## How it works

From a phrase to the yard, by induction on the phrase: when its last token has been taken, some of
its operators wait on top of what waited before, they hold together at least as tightly as the
phrase does, and with them the listing of its tree is complete. The operand on the left of a binary
operator is released as a whole when the operator comes, because operators that hold together as
tightly as a left operand must all precede it (`precedes_of_leftLevel`); what waited before stays,
because it waits for a phrase that the operator belongs to (`Steady`).

From the yard to a phrase, token by token: what was taken is the beginning of a formula with as many
open brackets as there are brackets waiting.
-/

namespace Formula

/-! ## Levels of operators -/

/-- The tightest kind of phrase that an operator makes, as a level. -/
def Op.level : Op → Nat
  | .unary .factorial => 5
  | .unary _ => 4
  | .binary b => (Op.binary b).priority

/-- The level of the phrase on the left of a binary operator. -/
def BinaryOp.leftLevel (b : BinaryOp) : Nat :=
  if b = .power then 4 else (Op.binary b).priority

/-- The level of the phrase on the right of a binary operator. -/
def BinaryOp.rightLevel (b : BinaryOp) : Nat :=
  if b = .power then 3 else (Op.binary b).priority + 1

theorem Op.four_le_level_unary (u : UnaryOp) : 4 ≤ (Op.unary u).level := by
  cases u <;> simp [Op.level]

/-- Nothing waits for a sign, a function or a factorial to come. -/
theorem Op.precedes_unary (o : Op) (u : UnaryOp) : o.precedes (.unary u) = false := by
  rcases o with u' | b
  · rfl
  · cases b <;> rfl

/-- **Operators of a left operand precede its operator.** -/
theorem Op.precedes_of_leftLevel {o : Op} {b : BinaryOp} (h : b.leftLevel ≤ o.level) :
    o.precedes (.binary b) = true := by
  rcases o with u | b'
  · cases b <;> rfl
  · cases b <;> cases b' <;> first | rfl | exact absurd h (by decide)

/-- **An operator does not precede the operators of its right operand.** -/
theorem Op.precedes_of_rightLevel {b b' : BinaryOp} (h : b.rightLevel ≤ (Op.binary b').priority) :
    (Op.binary b).precedes (.binary b') = false := by
  cases b <;> cases b' <;> first | rfl | exact absurd h (by decide)

/-! ## The yard -/

/-- The tokens released so far, in order, and what waits, the latest first. -/
structure Yard where
  released : List Token
  pending : List Pending

namespace Yard

/-- The waiting operators that precede the incoming one, and what waits below them. -/
def splitPreceding (incoming : Op) : List Pending → List Op × List Pending
  | .op waiting :: pending =>
    if waiting.precedes incoming then
      (waiting :: (splitPreceding incoming pending).1, (splitPreceding incoming pending).2)
    else ([], .op waiting :: pending)
  | pending => ([], pending)

/-- The waiting operators down to the open bracket, and what waits below it; there may be none. -/
def splitBracket : List Pending → Option (List Op × List Pending)
  | [] => none
  | .bracket :: pending => some ([], pending)
  | .op o :: pending => (splitBracket pending).map fun s => (o :: s.1, s.2)

/-- All that waits, if no bracket is open. -/
def operators : List Pending → Option (List Op)
  | [] => some []
  | .bracket :: _ => none
  | .op o :: pending => (operators pending).map (o :: ·)

def start : Yard := ⟨[], []⟩

/-- Takes one token. -/
def take (y : Yard) : Token → Option Yard
  | .number v => some ⟨y.released ++ [.number v], y.pending⟩
  | .name word => some ⟨y.released ++ [.name word], y.pending⟩
  | .op o =>
    some ⟨y.released ++ (splitPreceding o y.pending).1.map .op,
      .op o :: (splitPreceding o y.pending).2⟩
  | .openBracket => some ⟨y.released, .bracket :: y.pending⟩
  | .closeBracket => (splitBracket y.pending).map fun s => ⟨y.released ++ s.1.map .op, s.2⟩

def takeAll (y : Yard) : List Token → Option Yard
  | [] => some y
  | t :: ts => (y.take t).bind (·.takeAll ts)

/-- All tokens in the order of their release, if no token is left and no bracket is open. -/
def all (y : Yard) : Option (List Token) :=
  (operators y.pending).map fun os => y.released ++ os.map .op

/-- The order in which the tokens of a row are released. -/
def order (ts : List Token) : Option (List Token) := (start.takeAll ts).bind all

/-! ## Splitting -/

theorem splitPreceding_unary (u : UnaryOp) (pending : List Pending) :
    splitPreceding (.unary u) pending = ([], pending) := by
  rcases pending with _ | ⟨_ | o, pending⟩
  · rfl
  · rfl
  · rw [splitPreceding, if_neg (by simp [Op.precedes_unary])]

/-- Binary operators from the given priority on set nothing free. -/
def Steady (n : Nat) (pending : List Pending) : Prop :=
  ∀ b : BinaryOp, n ≤ (Op.binary b).priority → splitPreceding (.binary b) pending = ([], pending)

theorem Steady.mono {n m : Nat} {pending : List Pending} (h : Steady n pending) (hnm : n ≤ m) :
    Steady m pending := fun b hb => h b (Nat.le_trans hnm hb)

theorem steady_nil (n : Nat) : Steady n [] := fun _ _ => rfl

theorem steady_bracket (n : Nat) (pending : List Pending) : Steady n (.bracket :: pending) :=
  fun _ _ => rfl

/-- Signs, functions and factorials hold together more tightly than any binary operator. -/
theorem steady_four (pending : List Pending) : Steady 4 pending := fun b hb => by
  have := b.priority_le
  omega

theorem steady_binary (b : BinaryOp) (pending : List Pending) :
    Steady b.rightLevel (.op (.binary b) :: pending) := fun b' hb' => by
  rw [splitPreceding, if_neg (by simp [Op.precedes_of_rightLevel hb'])]

/-- A binary operator sets its left operand free and nothing below it. -/
theorem splitPreceding_append {b : BinaryOp} {os : List Op} {pending : List Pending}
    (hos : ∀ o ∈ os, b.leftLevel ≤ o.level)
    (hp : splitPreceding (.binary b) pending = ([], pending)) :
    splitPreceding (.binary b) (os.map .op ++ pending) = (os, pending) := by
  induction os with
  | nil => exact hp
  | cons o os ih =>
    have ho := Op.precedes_of_leftLevel (hos o List.mem_cons_self)
    have hrest := ih fun x hx => hos x (List.mem_cons_of_mem _ hx)
    rw [List.map_cons, List.cons_append, splitPreceding, if_pos ho, hrest]

theorem splitBracket_append (os : List Op) (pending : List Pending) :
    splitBracket (os.map .op ++ .bracket :: pending) = some (os, pending) := by
  induction os with
  | nil => rfl
  | cons o os ih => rw [List.map_cons, List.cons_append, splitBracket, ih]; rfl

theorem operators_map (os : List Op) : operators (os.map .op) = some os := by
  induction os with
  | nil => rfl
  | cons o os ih => rw [List.map_cons, operators, ih]; rfl

/-! ## From phrases to the yard -/

theorem takeAll_append_eq (y : Yard) (ts us : List Token) :
    y.takeAll (ts ++ us) = (y.takeAll ts).bind (·.takeAll us) := by
  induction ts generalizing y with
  | nil => rfl
  | cons t ts ih =>
    rw [List.cons_append, takeAll, takeAll, Option.bind_assoc]
    exact Option.bind_congr fun z _ => ih z

theorem takeAll_append {y y' : Yard} {ts : List Token} (us : List Token)
    (h : y.takeAll ts = some y') : y.takeAll (ts ++ us) = y'.takeAll us := by
  rw [takeAll_append_eq, h]
  rfl

/-- What taking a phrase does to a yard: some tokens are released, and the operators that still wait
complete the listing of the tree. -/
def Takes (n : Nat) (ts : List Token) (t : Tree) : Prop :=
  ∀ released pending, Steady n pending →
    ∃ (rs : List Token) (os : List Op),
      takeAll ⟨released, pending⟩ ts = some ⟨released ++ rs, os.map .op ++ pending⟩ ∧
      rs ++ os.map .op = t.postorder ∧ ∀ o ∈ os, n ≤ o.level

variable {n m : Nat} {ts us : List Token} {t l r : Tree}

theorem Takes.mono (h : Takes m ts t) (hnm : n ≤ m) : Takes n ts t := by
  intro released pending hp
  obtain ⟨rs, os, h1, h2, h3⟩ := h released pending (hp.mono hnm)
  exact ⟨rs, os, h1, h2, fun o ho => Nat.le_trans hnm (h3 o ho)⟩

theorem Takes.unary {u : UnaryOp} (h : Takes 4 ts t) :
    Takes 4 (.op (.unary u) :: ts) (.unary u t) := by
  intro released pending _
  obtain ⟨rs, os, h1, h2, h3⟩ := h released (.op (.unary u) :: pending) (steady_four _)
  refine ⟨rs, os ++ [.unary u], ?_, ?_, ?_⟩
  · have ht : take ⟨released, pending⟩ (.op (.unary u))
        = some ⟨released, .op (.unary u) :: pending⟩ := by
      simp [take, splitPreceding_unary]
    rw [takeAll, ht, Option.bind_some, h1]
    simp
  · rw [Tree.postorder, ← h2]
    simp
  · intro o ho
    rcases List.mem_append.mp ho with ho | ho
    · exact h3 o ho
    · rw [List.mem_singleton.mp ho]
      exact Op.four_le_level_unary u

/-- A factorial waits on top of those before it, and it is released before them. -/
theorem Takes.factorial (h : Takes 5 ts t) :
    Takes 5 (ts ++ [.op (.unary .factorial)]) (.unary .factorial t) := by
  intro released pending hp
  obtain ⟨rs, os, h1, h2, h3⟩ := h released pending hp
  have hos : os.map Token.op ++ [.op (.unary .factorial)]
      = .op (.unary .factorial) :: os.map Token.op := by
    -- nothing else holds together as tightly
    have hrep : ∀ o ∈ os, o = .unary .factorial := by
      intro o ho
      have := h3 o ho
      rcases o with (_ | _ | _ | _) | b
      · simp [Op.level] at this
      · simp [Op.level] at this
      · rfl
      · simp [Op.level] at this
      · have := b.priority_le
        simp [Op.level] at *
        omega
    rw [List.eq_replicate_of_mem hrep, List.map_replicate, ← List.replicate_succ,
      List.replicate_succ']
  refine ⟨rs, .unary .factorial :: os, ?_, ?_, ?_⟩
  · rw [takeAll_append _ h1]
    simp [takeAll, take, splitPreceding_unary]
  · rw [Tree.postorder, ← h2, List.append_assoc, hos]
    rfl
  · intro o ho
    rcases List.mem_cons.mp ho with rfl | ho
    · exact Nat.le_refl 5
    · exact h3 o ho

theorem Takes.binary {b : BinaryOp} (hl : Takes m ts l) (hr : Takes b.rightLevel us r)
    (hm : b.leftLevel ≤ m) (hnm : n ≤ m) (hb : n ≤ (Op.binary b).priority)
    (hn : n ≤ b.rightLevel) :
    Takes n (ts ++ .op (.binary b) :: us) (.binary b l r) := by
  intro released pending hp
  obtain ⟨rs, os, h1, h2, h3⟩ := hl released pending (hp.mono hnm)
  obtain ⟨rs', os', h1', h2', h3'⟩ := hr (released ++ l.postorder) (.op (.binary b) :: pending)
    (steady_binary b pending)
  refine ⟨l.postorder ++ rs', os' ++ [.binary b], ?_, ?_, ?_⟩
  · -- the operator sets the left operand free, which completes its listing
    have hs := splitPreceding_append (fun o ho => Nat.le_trans hm (h3 o ho)) (hp b hb)
    have ht : take ⟨released ++ rs, os.map .op ++ pending⟩ (.op (.binary b))
        = some ⟨released ++ l.postorder, .op (.binary b) :: pending⟩ := by
      rw [take, hs, ← h2, List.append_assoc]
    rw [takeAll_append _ h1, takeAll, ht, Option.bind_some, h1']
    simp
  · rw [Tree.postorder, ← h2']
    simp
  · intro o ho
    rcases List.mem_append.mp ho with ho | ho
    · exact Nat.le_trans hn (h3' o ho)
    · rw [List.mem_singleton.mp ho]
      exact hb

theorem Takes.bracket (h : Takes 1 ts t) : Takes 6 (.openBracket :: ts ++ [.closeBracket]) t := by
  intro released pending _
  -- what waited before is out of reach behind the open bracket
  obtain ⟨rs, os, h1, h2, -⟩ := h released (.bracket :: pending) (steady_bracket 1 pending)
  refine ⟨t.postorder, [], ?_, List.append_nil _, fun o ho => absurd ho List.not_mem_nil⟩
  show takeAll ⟨released, .bracket :: pending⟩ (ts ++ [.closeBracket]) = _
  have ht : take ⟨released ++ rs, os.map .op ++ .bracket :: pending⟩ .closeBracket
      = some ⟨released ++ t.postorder, pending⟩ := by
    rw [take, splitBracket_append, ← h2, ← List.append_assoc]
    rfl
  rw [takeAll_append _ h1, takeAll, ht]
  rfl

/-- **Taking a phrase.** -/
theorem takes_phrase {k : Category} (h : Phrase k ts t) : Takes k.level ts t := by
  induction h with
  | ofTerm _ ih | ofPower _ ih | ofPrefixed _ ih | ofSuffixed _ ih | ofAtom _ ih =>
    exact ih.mono (by decide)
  | sum hb _ _ ihl ihr | product hb _ _ ihl ihr =>
    rcases hb with rfl | rfl
    · exact ihl.binary ihr (by decide) (by decide) (by decide) (by decide)
    · exact ihl.binary ihr (by decide) (by decide) (by decide) (by decide)
  | raise _ _ ihl ihr => exact ihl.binary ihr (by decide) (by decide) (by decide) (by decide)
  | sign _ _ ih => exact ih.unary
  | factorial _ ih => exact ih.factorial
  | number v => exact fun released pending _ => ⟨[.number v], [], rfl, rfl, by simp⟩
  | name word => exact fun released pending _ => ⟨[.name word], [], rfl, rfl, by simp⟩
  | bracket _ ih => exact ih.bracket

theorem order_phrase (h : Phrase .expr ts t) : order ts = some t.postorder := by
  obtain ⟨rs, os, h1, h2, -⟩ := takes_phrase h [] [] (steady_nil _)
  rw [order, start, h1, Option.bind_some, all, List.append_nil, operators_map, ← h2]
  rfl

/-! ## From the yard to phrases -/

/-- How many brackets are open. -/
def openCount (pending : List Pending) : Nat := pending.count .bracket

theorem openCount_splitPreceding (o : Op) (pending : List Pending) :
    openCount (splitPreceding o pending).2 = openCount pending := by
  induction pending with
  | nil => rfl
  | cons p pending ih =>
    cases p with
    | bracket => rfl
    | op w =>
      rw [splitPreceding]
      split
      · rw [ih]; simp [openCount]
      · rfl

theorem openCount_splitBracket {pending : List Pending} {s : List Op × List Pending}
    (h : splitBracket pending = some s) : openCount pending = openCount s.2 + 1 := by
  induction pending generalizing s with
  | nil => cases h
  | cons p pending ih =>
    cases p with
    | bracket => cases h; simp [openCount]
    | op o =>
      obtain ⟨s', hs', rfl⟩ := Option.map_eq_some_iff.mp h
      rw [← ih hs']
      simp [openCount]

theorem openCount_of_operators {pending : List Pending} {os : List Op}
    (h : operators pending = some os) : openCount pending = 0 := by
  induction pending generalizing os with
  | nil => rfl
  | cons p pending ih =>
    cases p with
    | bracket => cases h
    | op o =>
      obtain ⟨os', hos', -⟩ := Option.map_eq_some_iff.mp h
      rw [← ih hos']
      simp [openCount]

/-- A bracket can be closed exactly if one is open. -/
theorem splitBracket_eq_none_iff {pending : List Pending} :
    splitBracket pending = none ↔ openCount pending = 0 := by
  constructor
  · intro h
    induction pending with
    | nil => rfl
    | cons p pending ih =>
      cases p with
      | bracket => cases h
      | op o =>
        rw [← ih (Option.map_eq_none_iff.mp h)]
        simp [openCount]
  · intro h
    cases hs : splitBracket pending with
    | none => rfl
    | some s => rw [openCount_splitBracket hs] at h; cases h

/-- The only token that is not taken is a close bracket without an open one. -/
theorem take_eq_none {y : Yard} {t : Token} (h : y.take t = none) :
    t = .closeBracket ∧ openCount y.pending = 0 := by
  cases t with
  | closeBracket => exact ⟨rfl, splitBracket_eq_none_iff.mp (Option.map_eq_none_iff.mp h)⟩
  | number v | name word | op o | openBracket => cases h

/-- Nothing waits but operators exactly if no bracket is open. -/
theorem operators_eq_none_iff {pending : List Pending} :
    operators pending = none ↔ openCount pending ≠ 0 := by
  constructor
  · intro h hz
    induction pending with
    | nil => cases h
    | cons p pending ih =>
      cases p with
      | bracket => simp [openCount] at hz
      | op o => exact ih (Option.map_eq_none_iff.mp h) (by simpa [openCount] using hz)
  · intro h
    cases ho : operators pending with
    | none => rfl
    | some os => exact absurd (openCount_of_operators ho) h

/-- Each close bracket closes one. -/
theorem openCount_of_takeAll_closeBrackets {y y' : Yard} {k : Nat}
    (h : y.takeAll (List.replicate k .closeBracket) = some y') :
    openCount y.pending = openCount y'.pending + k := by
  induction k generalizing y with
  | zero => rw [Option.some.inj h]; rfl
  | succ k ih =>
    obtain ⟨z, hz, h⟩ := Option.bind_eq_some_iff.mp h
    obtain ⟨s, hs, rfl⟩ := Option.map_eq_some_iff.mp hz
    rw [openCount_splitBracket hs, ih h]
    omega

/-- **One token.** What was taken stays the beginning of a formula. -/
theorem beginning_take {e : Expected} {y y' : Yard} {x : Token}
    (h : Beginning e (openCount y.pending) ts) (hx : x.fits e) (hy : y.take x = some y') :
    Beginning (e.after x) (openCount y'.pending) (ts ++ [x]) := by
  cases x with
  | number v => cases e <;> cases hx; cases hy; exact h.atom (.number v)
  | name word => cases e <;> cases hx; cases hy; exact h.atom (.name word)
  | openBracket =>
    cases e <;> cases hx
    cases hy
    have hc : openCount (.bracket :: y.pending) = openCount y.pending + 1 := List.count_cons_self
    rw [hc]
    exact h.openBracket
  | closeBracket =>
    cases e <;> cases hx
    obtain ⟨s, hs, rfl⟩ := Option.map_eq_some_iff.mp hy
    rw [openCount_splitBracket hs] at h
    exact h.closeBracket
  | op o =>
    -- operators come and go, brackets stay
    cases hy
    have hc : openCount (.op o :: (splitPreceding o y.pending).2) = openCount y.pending := by
      rw [← openCount_splitPreceding o y.pending]
      simp [openCount]
    rw [hc]
    cases o with
    | unary u =>
      cases e with
      | operand => exact h.sign (by simpa [Token.fits] using hx)
      | operator =>
        have hu : u = .factorial := by simpa [Token.fits] using hx
        rw [hu]
        exact h.factorial
    | binary b => cases e <;> cases hx; exact h.binary b

/-- **All tokens.** -/
theorem beginning_takeAll {e e' : Expected} {y y' : Yard}
    (h : Beginning e (openCount y.pending) ts) (hus : e.through us = some e')
    (hy : y.takeAll us = some y') : Beginning e' (openCount y'.pending) (ts ++ us) := by
  induction us generalizing e y ts with
  | nil =>
    cases hus
    cases hy
    rw [List.append_nil]
    exact h
  | cons x us ih =>
    rw [Expected.through] at hus
    split at hus
    · next hx =>
      obtain ⟨z, hz, hy⟩ := Option.bind_eq_some_iff.mp hy
      have := ih (beginning_take h hx hz) hus hy
      rwa [List.append_assoc] at this
    · cases hus

/-- **The yard accepts expressions only, and orders them by their trees.** -/
theorem order_eq_some_iff (h : Expected.operand.through ts = some .operator) {rs : List Token} :
    order ts = some rs ↔ ∃ t, Phrase .expr ts t ∧ rs = t.postorder := by
  constructor
  · intro ho
    obtain ⟨y, hy, ha⟩ := Option.bind_eq_some_iff.mp ho
    obtain ⟨os, hos, -⟩ := Option.map_eq_some_iff.mp ha
    have hb := beginning_takeAll .nil h hy
    rw [openCount_of_operators hos] at hb
    obtain ⟨t, ht⟩ := hb.phrase
    exact ⟨t, ht, Option.some.inj (ho.symm.trans (order_phrase ht))⟩
  · rintro ⟨t, ht, rfl⟩
    exact order_phrase ht

end Yard

/-- **An expression has one tree.** -/
theorem Phrase.unique {ts : List Token} {t u : Tree} (ht : Phrase .expr ts t)
    (hu : Phrase .expr ts u) : t = u :=
  Tree.postorder_injective
    (Option.some.inj ((Yard.order_phrase ht).symm.trans (Yard.order_phrase hu)))

end Formula
