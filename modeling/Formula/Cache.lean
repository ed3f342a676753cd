/-!
# Least recently used entries

A cache keeps a bounded number of entries, the one used last in front. Looking a key up is a use,
and so is storing it. When there are too many entries, those that were not used for longest are
dropped.
-/

namespace Formula

/-- Entries in the order of their last use, latest first, and how many of them are kept. -/
structure Cache (κ ν : Type) where
  capacity : Nat
  entries : List (κ × ν)

namespace Cache

variable {κ ν : Type} [BEq κ]

def empty (capacity : Nat) : Cache κ ν := ⟨capacity, []⟩

def size (c : Cache κ ν) : Nat := c.entries.length

def find? (c : Cache κ ν) (k : κ) : Option ν := c.entries.lookup k

/-- Without the entry of a key. -/
def erase (c : Cache κ ν) (k : κ) : Cache κ ν :=
  { c with entries := c.entries.filter fun e => !(e.1 == k) }

/-- The entry of a key in front, the last ones dropped if there are too many. -/
def store (c : Cache κ ν) (k : κ) (v : ν) : Cache κ ν :=
  { c with entries := ((k, v) :: (c.erase k).entries).take c.capacity }

/-- There are never too many entries after one was stored. -/
theorem size_store_le (c : Cache κ ν) (k : κ) (v : ν) : (c.store k v).size ≤ c.capacity :=
  List.length_take_le _ _

/-- What was stored last is found. -/
theorem find?_store_self [LawfulBEq κ] (c : Cache κ ν) (k : κ) (v : ν) (h : 0 < c.capacity) :
    (c.store k v).find? k = some v := by
  obtain ⟨n, hn⟩ := Nat.exists_eq_succ_of_ne_zero (Nat.ne_of_gt h)
  simp [find?, store, hn]

end Cache

end Formula
