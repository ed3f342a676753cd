import Formula.Proofs.Double.Same
import Formula.Statistic.Sorting

/-!
# Ascending order

Without NaN, doubles are sorted into ascending order (`ascending_sort`), and there is one such order
only, if the signs of zeros do not count: two lists with the same elements that are both ascending
have the same number at each place (`alike_of_perm`). So it makes no difference how a list is
sorted, nor in which order its elements were before (`alike_sort`).
-/

namespace Formula.Statistic

/-! ## The same numbers in the same places -/

/-- The same number at each place. -/
def Alike (xs ys : List Double) : Prop := xs.map Double.rank? = ys.map Double.rank?

namespace Alike

variable {xs ys : List Double}

theorem length_eq (h : Alike xs ys) : xs.length = ys.length := by
  rw [← List.length_map Double.rank?, h, List.length_map]

/-- What stands at a place, or that nothing does. -/
theorem getElem? (h : Alike xs ys) (i : Nat) :
    xs[i]? = none ∧ ys[i]? = none ∨ ∃ x y, xs[i]? = some x ∧ ys[i]? = some y ∧ x.Same y := by
  have hrank : xs[i]?.map Double.rank? = ys[i]?.map Double.rank? := by
    rw [← List.getElem?_map, h, List.getElem?_map]
  cases hx : xs[i]? with
  | none =>
    cases hy : ys[i]? with
    | none => exact .inl ⟨rfl, rfl⟩
    | some y => rw [hx, hy] at hrank; cases hrank
  | some x =>
    cases hy : ys[i]? with
    | none => rw [hx, hy] at hrank; cases hrank
    | some y =>
      rw [hx, hy] at hrank
      exact .inr ⟨x, y, rfl, rfl, Double.same_iff_rank?.mpr (Option.some.inj hrank)⟩

end Alike

/-! ## Ascending lists -/

/-- Each element is at most as great as those behind it. -/
def Ascending (xs : List Double) : Prop := xs.Pairwise fun x y => x.le y = true

theorem le_iff {x y : Double} :
    x.le y = true ↔ ∃ i ∈ x.rank?, ∃ j ∈ y.rank?, i ≤ j := by
  unfold Double.le Double.compares
  cases hx : x.rank? with
  | none => simp
  | some i => cases hy : y.rank? <;> simp

/-- **There is one ascending order only.** -/
theorem alike_of_perm {xs ys : List Double} (h : xs.Perm ys) (hx : Ascending xs)
    (hy : Ascending ys) : Alike xs ys := by
  -- the order of numbers is one of their places on the line, and there it is antisymmetric
  have hplaces : ∀ {zs}, Ascending zs →
      (zs.map Double.rank?).Pairwise fun a b => ∃ i ∈ a, ∃ j ∈ b, i ≤ j :=
    fun hzs => List.pairwise_map.mpr (hzs.imp le_iff.mp)
  refine (h.map Double.rank?).eq_of_pairwise ?_ (hplaces hx) (hplaces hy)
  rintro a b - - ⟨i, rfl, j, rfl, hij⟩ ⟨j', hj', i', hi', hji⟩
  cases hi'
  cases hj'
  rw [Int.le_antisymm hij hji]

/-! ## Sorting -/

section

variable {xs : List Double} (hxs : ∀ x ∈ xs, x.isNaN = false)

include hxs

theorem sort_eq_mergeSort : sort xs = xs.mergeSort fun x y => !y.lt x := by
  refine if_neg fun h => ?_
  obtain ⟨x, hx, hnan⟩ := List.any_eq_true.mp h
  exact Bool.false_ne_true ((hxs x hx).symm.trans hnan)

theorem perm_sort : (sort xs).Perm xs := by
  rw [sort_eq_mergeSort hxs]
  exact List.mergeSort_perm _ _

/-- **Sorted doubles are ascending.** -/
theorem ascending_sort : Ascending (sort xs) := by
  -- places on the line are integers, and so the comparison is transitive and total
  let place (x : Double) : Int := x.rank?.getD 0
  have hrank : ∀ x ∈ xs, x.rank? = some (place x) := by
    intro x hx
    cases x with
    | nan => cases hxs .nan hx
    | num s m => rfl
  have hplaces : (sort xs).map place = (xs.map place).mergeSort fun a b => decide (a ≤ b) := by
    rw [sort_eq_mergeSort hxs]
    refine List.map_mergeSort fun x hx y hy => ?_
    rw [Double.lt, Double.compares, hrank x hx, hrank y hy]
    show (!decide (place y < place x)) = decide (place x ≤ place y)
    rw [← decide_not, decide_eq_decide]
    exact Int.not_lt
  have hsorted : ((sort xs).map place).Pairwise fun a b => decide (a ≤ b) = true := by
    rw [hplaces]
    refine List.pairwise_mergeSort (fun a b c hab hbc => ?_) (fun a b => ?_) _
    · exact decide_eq_true (Int.le_trans (of_decide_eq_true hab) (of_decide_eq_true hbc))
    · simpa using Int.le_total a b
  refine (List.pairwise_map.mp hsorted).imp_of_mem fun {x y} hx hy h => le_iff.mpr ?_
  exact ⟨_, hrank x ((perm_sort hxs).mem_iff.mp hx), _, hrank y ((perm_sort hxs).mem_iff.mp hy),
    of_decide_eq_true h⟩

/-- **It makes no difference how the list is sorted.** -/
theorem alike_sort {ordered : List Double} (h : ordered.Perm xs) (hordered : Ascending ordered) :
    Alike (sort xs) ordered :=
  alike_of_perm ((perm_sort hxs).trans h.symm) (ascending_sort hxs) hordered

end

/-- **Nor in which order its elements were.** -/
theorem alike_sort_of_perm {xs ys : List Double} (hxs : ∀ x ∈ xs, x.isNaN = false)
    (h : ys.Perm xs) : Alike (sort ys) (sort xs) := by
  have hys : ∀ y ∈ ys, y.isNaN = false := fun y hy => hxs y (h.mem_iff.mp hy)
  exact alike_of_perm ((perm_sort hys).trans (h.trans (perm_sort hxs).symm)) (ascending_sort hys)
    (ascending_sort hxs)

end Formula.Statistic
