import Formula.Double.Basic
import Formula.Text.Quoted

/-!
# Tables of variables

A table gives each name a slot, counted from 0 in the order in which the names came in, and each
slot a value. Names only ever come in at the end, so a slot once given stays. A name without a
value of its own is NaN.
-/

namespace Formula

/-- A name that no formula of the table has mentioned. -/
structure UnknownVariable where
  name : String
  deriving DecidableEq

def UnknownVariable.message (e : UnknownVariable) : String :=
  "No such variable " ++ Text.quoted e.name

/-- Names with their values, in slot order. -/
structure Table where
  entries : List (String × Double)
  nodup : (entries.map Prod.fst).Nodup

namespace Table

/-! ## Reading -/

def names (t : Table) : List String := t.entries.map Prod.fst

def values (t : Table) : List Double := t.entries.map Prod.snd

def size (t : Table) : Nat := t.entries.length

def contains (t : Table) (name : String) : Bool := t.names.contains name

/-- The slot of a name. -/
def slot? (t : Table) (name : String) : Option Nat := t.names.idxOf? name

/-- The value of a name. -/
def lookup (t : Table) (name : String) : Option Double := t.entries.lookup name

/-- The slot of a name that must be known. -/
def slot (t : Table) (name : String) : Except UnknownVariable Nat :=
  match t.slot? name with
  | some i => .ok i
  | none => .error ⟨name⟩

/-- The value of a name that must be known. -/
def value (t : Table) (name : String) : Except UnknownVariable Double :=
  match t.lookup name with
  | some v => .ok v
  | none => .error ⟨name⟩

/-! ## Changing -/

def empty : Table := ⟨[], List.nodup_nil⟩

/-- Gives a new name the next slot; a known one keeps its own. -/
def register (t : Table) (name : String) : Table :=
  if h : name ∈ t.entries.map Prod.fst then t
  else ⟨t.entries ++ [(name, .nan)], by
    rw [List.map_append, List.map_cons, List.map_nil, List.nodup_append]
    refine ⟨t.nodup, List.nodup_cons.mpr ⟨List.not_mem_nil, List.nodup_nil⟩, ?_⟩
    intro a ha b hb
    rw [List.mem_singleton] at hb
    exact fun e => h (by rw [e, hb] at ha; exact ha)⟩

/-- The slot of a name, and the table in which the name has it. -/
def slotFor (t : Table) (name : String) : Nat × Table :=
  match t.slot? name with
  | some i => (i, t)
  | none => (t.size, t.register name)

/-- Gives a known name a value; an unknown one is ignored. -/
def set (t : Table) (name : String) (v : Double) : Table :=
  ⟨t.entries.map fun e => (e.1, if e.1 = name then v else e.2), by
    rw [List.map_map]; exact t.nodup⟩

/-- Gives values to names, one after the other. -/
def setAll (t : Table) (bindings : List (String × Double)) : Table :=
  bindings.foldl (fun t b => t.set b.1 b.2) t

/-! ## What stays and what comes in -/

theorem register_of_mem {t : Table} {name : String} (h : name ∈ t.names) :
    t.register name = t := dif_pos h

theorem names_register_of_not_mem {t : Table} {name : String} (h : name ∉ t.names) :
    (t.register name).names = t.names ++ [name] := by
  simp [register, names, show name ∉ t.entries.map Prod.fst from h]

/-- Setting a value moves no name. -/
theorem names_set (t : Table) (name : String) (v : Double) : (t.set name v).names = t.names := by
  simp [set, names, List.map_map, Function.comp_def]

theorem names_setAll (t : Table) (bindings : List (String × Double)) :
    (t.setAll bindings).names = t.names := by
  induction bindings generalizing t with
  | nil => rfl
  | cons b bindings ih => exact (ih (t.set b.1 b.2)).trans (names_set t b.1 b.2)

/-! ## Constants -/

/-- The names that every formula knows. -/
def constants : List (String × Double) :=
  [("pi", .ofBits 0x400921fb54442d18), ("e", .ofBits 0x4005bf0a8b145769),
   ("inf", .infinity), ("NaN", .nan), ("Epsilon", .ofBits 0x0000000000000001),
   ("MinValue", .ofBits 0xffefffffffffffff), ("MaxValue", .ofBits 0x7fefffffffffffff)]

def isConstant (name : String) : Bool := (constants.map Prod.fst).contains name

/-- The table that knows the constants only. -/
def withConstants : Table := ⟨constants, by decide⟩

end Table

end Formula
