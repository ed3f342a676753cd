import Formula.Proofs.Lookup
import Formula.Session.CompileCache

/-!
# A cache that tells the truth

What is found under a text must be what the text compiles to. That holds of the empty cache, and it
stays so whatever is found, stored or dropped (`Faithful.construct`), since only templates of texts
are stored and a template is never changed. So the expressions that are built do not depend on what
the cache holds.
-/

namespace Formula

namespace Cache

variable {κ ν : Type} [BEq κ] {c : Cache κ ν} {k : κ} {v : ν}

theorem mem_entries_of_find? [LawfulBEq κ] (h : c.find? k = some v) : (k, v) ∈ c.entries :=
  mem_of_lookup_eq_some h

/-- Storing brings in no entry but the one that is stored. -/
theorem mem_entries_of_mem_store {x : κ × ν} (h : x ∈ (c.store k v).entries) :
    x = (k, v) ∨ x ∈ c.entries := by
  rcases List.mem_cons.mp (List.mem_of_mem_take h) with heq | herase
  · exact .inl heq
  · exact .inr (List.mem_filter.mp herase).1

end Cache

namespace CompileCache

/-- Under a text stands what it compiles to. -/
def Faithful (c : CompileCache) (K : Kernels) : Prop :=
  ∀ x ∈ c.templates.entries, Template.ofText K x.1.2 x.1.1 = .ok x.2

variable {c : CompileCache} {K : Kernels}

theorem faithful_empty (K : Kernels) (capacity : Nat) : (empty capacity).Faithful K := by
  intro x hx
  cases hx

theorem Faithful.store (h : c.Faithful K) {text : String} {fold : Bool} {t : Template}
    (ht : Template.ofText K fold text = .ok t) (hits misses : Nat) :
    Faithful ⟨c.templates.store (text, fold) t, hits, misses⟩ K := by
  intro x hx
  rcases Cache.mem_entries_of_mem_store hx with rfl | hold
  · exact ht
  · exact h x hold

/-- **A faithful cache stays so, and builds what the text compiles to.** -/
theorem Faithful.construct (h : c.Faithful K) (text : String) (fold : Bool) :
    (c.construct K text fold).1.Faithful K ∧
      (c.construct K text fold).2 = Expression.ofText K fold text := by
  unfold CompileCache.construct Expression.ofText
  cases hfind : c.templates.find? (text, fold) with
  | some t =>
    have ht : Template.ofText K fold text = .ok t := h _ (Cache.mem_entries_of_find? hfind)
    rw [ht]
    exact ⟨h.store ht _ _, rfl⟩
  | none =>
    cases ht : Template.ofText K fold text with
    | ok t => exact ⟨h.store ht _ _, rfl⟩
    | error e => exact ⟨h, rfl⟩

end CompileCache

end Formula
