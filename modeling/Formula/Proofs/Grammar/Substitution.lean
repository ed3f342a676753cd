import Mathlib.Logic.Function.Basic
import Formula.Proofs.Grammar.Yard

/-!
# Atoms in the place of names

A name may stand wherever an atom may stand, and the other way round. With atoms in the place of its
names a phrase stays a phrase (`Phrase.substitute`), and its value is the one that it has if the
names stand for the values of the atoms (`Tree.eval_substitute`).

Conversely, a name may take the place of an atom in an expression (`Phrase.exists_name_for_atom`). A
yard sees no difference: both leave it with the same that waits.
-/

namespace Formula

/-! ## Trees -/

namespace Tree

/-- Puts a tree in the place of each name. -/
def substitute (σ : String → Tree) : Tree → Tree
  | .number v => .number v
  | .name word => σ word
  | .unary u t => .unary u (t.substitute σ)
  | .binary b l r => .binary b (l.substitute σ) (r.substitute σ)

/-- **Names may stand for the values of what is put in their place.** -/
theorem eval_substitute (K : Kernels) (ρ : String → Double) (σ : String → Tree) (t : Tree) :
    (t.substitute σ).eval K ρ = t.eval K fun word => (σ word).eval K ρ := by
  induction t with
  | number v | name word => rfl
  | unary u t ih =>
    cases u with
    | plus | minus | factorial | call f => simp only [substitute, eval, ih]
  | binary b l r ihl ihr => simp only [substitute, eval, ihl, ihr]

/-- The same for a single name. -/
theorem eval_substitute_update (K : Kernels) (ρ : String → Double) (x : String) (u t : Tree) :
    (t.substitute (Function.update name x u)).eval K ρ
      = t.eval K (Function.update ρ x (u.eval K ρ)) := by
  rw [eval_substitute]
  exact congrArg (t.eval K) (Function.comp_update (eval K ρ) name x u)

end Tree

/-! ## Phrases -/

/-- What stands for a token if the names are replaced by rows of tokens. -/
def Token.substitute (atoms : String → List Token) : Token → List Token
  | .name word => atoms word
  | t => [t]

/-- **With atoms in the place of its names, a phrase stays a phrase.** -/
theorem Phrase.substitute {atoms : String → List Token} {σ : String → Tree}
    (hatoms : ∀ word, Phrase .atom (atoms word) (σ word)) {k : Category} {ts : List Token}
    {t : Tree} (h : Phrase k ts t) :
    Phrase k (ts.flatMap (Token.substitute atoms)) (t.substitute σ) := by
  induction h with
  | ofTerm _ ih => exact .ofTerm ih
  | ofPower _ ih => exact .ofPower ih
  | ofPrefixed _ ih => exact .ofPrefixed ih
  | ofSuffixed _ ih => exact .ofSuffixed ih
  | ofAtom _ ih => exact .ofAtom ih
  | sum hb _ _ ihl ihr =>
    rw [List.flatMap_append]
    exact .sum hb ihl ihr
  | product hb _ _ ihl ihr =>
    rw [List.flatMap_append]
    exact .product hb ihl ihr
  | raise _ _ ihl ihr =>
    rw [List.flatMap_append]
    exact .raise ihl ihr
  | sign hu _ ih => exact .sign hu ih
  | factorial _ ih =>
    rw [List.flatMap_append]
    exact .factorial ih
  | number v => exact .number v
  | name word =>
    rw [List.flatMap_singleton]
    exact hatoms word
  | bracket _ ih =>
    rw [List.flatMap_append]
    exact .bracket ih

/-- The same for a single name. -/
theorem Phrase.substitute_update {atom : List Token} {u : Tree} (hatom : Phrase .atom atom u)
    (x : String) {k : Category} {ts : List Token} {t : Tree} (h : Phrase k ts t) :
    Phrase k (ts.flatMap (Token.substitute (Function.update (fun word => [.name word]) x atom)))
      (t.substitute (Function.update Tree.name x u)) := by
  refine h.substitute fun word => ?_
  by_cases hword : word = x
  · rw [hword, Function.update_self, Function.update_self]
    exact hatom
  · rw [Function.update_of_ne hword, Function.update_of_ne hword]
    exact .name word

/-- A name that does not stand there is not replaced. -/
theorem flatMap_substitute_update {x : String} {atom : List Token} {ts : List Token}
    (h : .name x ∉ ts) :
    ts.flatMap (Token.substitute (Function.update (fun word => [.name word]) x atom)) = ts := by
  induction ts with
  | nil => rfl
  | cons t ts ih =>
    obtain ⟨hne, hts⟩ := List.ne_and_not_mem_of_not_mem_cons h
    rw [List.flatMap_cons, ih hts]
    cases t with
    | name word =>
      have hword : word ≠ x := fun heq => hne (heq ▸ rfl)
      show Function.update (fun word => [Token.name word]) x atom word ++ ts = _
      rw [Function.update_of_ne hword]
      rfl
    | number v | op o | openBracket | closeBracket => rfl

/-! ## A name in the place of an atom -/

/-- An atom stands where an operand is expected, as a name does. -/
theorem Phrase.through_name_for_atom {as atom cs : List Token} {u : Tree} {e : Expected}
    (hatom : Phrase .atom atom u) (h : Expected.operand.through (as ++ atom ++ cs) = some e)
    (x : String) : Expected.operand.through (as ++ .name x :: cs) = some e := by
  rw [Expected.through_append, Expected.through_append] at h
  rw [Expected.through_append]
  cases he : Expected.operand.through as with
  | none =>
    rw [he] at h
    cases h
  | some e' =>
    rw [he] at h
    cases e' with
    | operand =>
      rw [Option.bind_some, hatom.through] at h
      exact h
    | operator =>
      have hnone : Expected.operator.through atom = none := by
        cases hatom <;> rfl
      rw [Option.bind_some, hnone] at h
      cases h

namespace Yard

/-- What was released has no say in what waits. -/
theorem exists_takeAll_eq {y y' : Yard} {ts : List Token} (h : y.takeAll ts = some y')
    (released : List Token) :
    ∃ released', takeAll ⟨released, y.pending⟩ ts = some ⟨released', y'.pending⟩ := by
  induction ts generalizing y released with
  | nil =>
    cases h
    exact ⟨released, rfl⟩
  | cons t ts ih =>
    obtain ⟨z, hz, h⟩ := Option.bind_eq_some_iff.mp h
    have htake : ∃ r, take ⟨released, y.pending⟩ t = some ⟨r, z.pending⟩ := by
      cases t with
      | closeBracket =>
        obtain ⟨s, hs, rfl⟩ := Option.map_eq_some_iff.mp hz
        exact ⟨_, Option.map_eq_some_iff.mpr ⟨s, hs, rfl⟩⟩
      | number v | name word | op o | openBracket =>
        cases hz
        exact ⟨_, rfl⟩
    obtain ⟨r, hr⟩ := htake
    obtain ⟨r', hr'⟩ := ih h r
    exact ⟨r', by rw [takeAll, hr]; exact hr'⟩

/-- An atom is released at once. -/
theorem takeAll_atom {ts : List Token} {t : Tree} (h : Phrase .atom ts t) (y : Yard) :
    y.takeAll ts = some ⟨y.released ++ t.postorder, y.pending⟩ := by
  obtain ⟨rs, os, htake, hpostorder, hlevel⟩ :=
    takes_phrase h y.released y.pending ((steady_four _).mono (by decide))
  -- no operator holds together as tightly as an atom
  have hos : os = [] := by
    refine List.eq_nil_iff_forall_not_mem.mpr fun o ho => ?_
    have h6 : 6 ≤ o.level := hlevel o ho
    cases o with
    | unary u => cases u <;> exact absurd h6 (by simp [Op.level])
    | binary b => exact absurd (Nat.le_trans h6 b.priority_le) (by decide)
  rw [hos, List.map_nil, List.append_nil] at hpostorder
  rw [htake, hos, hpostorder]
  rfl

/-- If a row with an atom in it is put in order, then so is the row with a name in its place. -/
theorem exists_order_name_for_atom {as atom cs rs : List Token} {u : Tree}
    (hatom : Phrase .atom atom u) (h : order (as ++ atom ++ cs) = some rs) (x : String) :
    ∃ rs', order (as ++ .name x :: cs) = some rs' := by
  obtain ⟨y, hy, hall⟩ := Option.bind_eq_some_iff.mp h
  obtain ⟨os, hos, -⟩ := Option.map_eq_some_iff.mp hall
  rw [takeAll_append_eq, takeAll_append_eq] at hy
  obtain ⟨z, hz, hcs⟩ := Option.bind_eq_some_iff.mp hy
  obtain ⟨w, hw, hz⟩ := Option.bind_eq_some_iff.mp hz
  rw [takeAll_atom hatom] at hz
  cases hz
  -- the name leaves the same that waits
  obtain ⟨released, hreleased⟩ := exists_takeAll_eq hcs (w.released ++ [.name x])
  refine ⟨released ++ os.map .op, ?_⟩
  rw [order, takeAll_append _ hw, takeAll]
  show (takeAll ⟨w.released ++ [.name x], w.pending⟩ cs).bind all = _
  rw [hreleased, Option.bind_some, all, hos]
  rfl

end Yard

/-- **In an expression, a new name may stand for an atom**, and with the atom in the place of the
name there is the expression again. -/
theorem Phrase.exists_name_for_atom {x : String} {as atom cs : List Token} {t u : Tree}
    (h : Phrase .expr (as ++ atom ++ cs) t) (hatom : Phrase .atom atom u)
    (hx : .name x ∉ as ++ atom ++ cs) :
    ∃ t', Phrase .expr (as ++ .name x :: cs) t' ∧
      t = t'.substitute (Function.update Tree.name x u) := by
  obtain ⟨rs, horder⟩ := Yard.exists_order_name_for_atom hatom (Yard.order_phrase h) x
  obtain ⟨t', ht', -⟩ :=
    (Yard.order_eq_some_iff (hatom.through_name_for_atom h.through x)).mp horder
  refine ⟨t', ht', h.unique ?_⟩
  rw [List.mem_append, List.mem_append, not_or, not_or] at hx
  have hself : Function.update (fun word => [Token.name word]) x atom x = atom := by
    rw [Function.update_self]
  have hback := hatom.substitute_update x ht'
  rw [List.flatMap_append, List.flatMap_cons, Token.substitute, hself,
    flatMap_substitute_update hx.1.1, flatMap_substitute_update hx.2, ← List.append_assoc] at hback
  exact hback

end Formula
