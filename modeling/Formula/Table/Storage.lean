import Formula.Index
import Formula.Table.Family

/-!
# Stored tables

A table is stored in two parts: an index, which has the slot of each name in the order in which the
names came in, and the values by slot. A new name is given the slot behind all values. Nothing in
the two parts says that they belong together, so a slot of the index may have no value, and then
what is asked for it fails.
-/

namespace Formula

namespace Table

/-- The slots of names, and the values of slots. -/
structure Storage where
  index : List (String × Nat)
  values : List Double

namespace Storage

/-! ## Reading -/

def names (s : Storage) : List String := s.index.map Prod.fst

def size (s : Storage) : Nat := s.index.length

def contains (s : Storage) (name : String) : Bool := (s.index.lookup name).isSome

/-- The slot of a name that must be known. -/
def slot (s : Storage) (name : String) : Except UnknownVariable Nat :=
  match s.index.lookup name with
  | some i => .ok i
  | none => .error ⟨name⟩

/-- The value of a slot. -/
def read (s : Storage) (slot : Nat) : Except IndexError Double :=
  match s.values[slot]? with
  | some v => .ok v
  | none => .error .outOfRange

/-- The value of a name that must be known. -/
def value (s : Storage) (name : String) : Except IndexError (Except UnknownVariable Double) :=
  match s.slot name with
  | .ok i => (s.read i).map .ok
  | .error e => .ok (.error e)

/-- The value of a name. -/
def lookup (s : Storage) (name : String) : Except IndexError (Option Double) :=
  match s.index.lookup name with
  | some i => (s.read i).map some
  | none => .ok none

/-- The values of all names, in the order of the index. -/
def entries (s : Storage) : Except IndexError (List (String × Double)) :=
  s.index.mapM fun e => (s.read e.2).map fun v => (e.1, v)

/-! ## Changing -/

def empty : Storage := ⟨[], []⟩

/-- Gives a name that has no slot the next one, with a value. -/
def add (s : Storage) (name : String) (v : Double) : Storage :=
  ⟨s.index ++ [(name, s.values.length)], s.values ++ [v]⟩

def withConstants : Storage := constants.foldl (fun s c => s.add c.1 c.2) empty

/-- The slot of a name, and the storage in which the name has it. -/
def slotFor (s : Storage) (name : String) : Nat × Storage :=
  match s.index.lookup name with
  | some i => (i, s)
  | none => (s.values.length, s.add name .nan)

/-- Gives a slot a value. -/
def write (s : Storage) (slot : Nat) (v : Double) : Except IndexError Storage :=
  if slot < s.values.length then .ok ⟨s.index, s.values.set slot v⟩ else .error .outOfRange

/-- Gives a known name a value; an unknown one is ignored. -/
def set (s : Storage) (name : String) (v : Double) : Except IndexError Storage :=
  match s.index.lookup name with
  | some i => s.write i v
  | none => .ok s

end Storage

/-! ## Families -/

/-- Stored tables by name. -/
structure StoredFamily where
  storages : List (String × Storage)

namespace StoredFamily

def single (id : String) (s : Storage) : StoredFamily := ⟨[(id, s)]⟩

/-- Holds a storage under a name, in place of the one before. -/
def put (f : StoredFamily) (id : String) (s : Storage) : StoredFamily :=
  ⟨(id, s) :: f.storages.filter fun e => e.1 ≠ id⟩

/-- Answers a request to the storage under a name. -/
def answer (f : StoredFamily) (id : String) (r : Request) :
    StoredFamily × Except IndexError Answer :=
  match f.storages.lookup id with
  | none => (f, .ok (.unbound id))
  | some s =>
    match r with
    | .slotFor name => (f.put id (s.slotFor name).2, .ok (.count (s.slotFor name).1))
    | .slot name => (f, .ok (Family.answerBy .count (s.slot name)))
    | .set name v =>
      match s.set name v with
      | .ok s => (f.put id s, .ok .done)
      | .error e => (f, .error e)
    | .value name => (f, (s.value name).map (Family.answerBy .number))
    | .lookup name => (f, (s.lookup name).map .maybeNumber)
    | .contains name => (f, .ok (.flag (s.contains name)))
    | .size => (f, .ok (.count s.size))
    | .names => (f, .ok (.names s.names))
    | .values => (f, .ok (.numbers s.values))
    | .entries => (f, s.entries.map .bindings)
    | .copy other => (f.put other s, .ok .done)

/-- Answers requests in order. -/
def answerAll : StoredFamily → List (String × Request) → List (Except IndexError Answer)
  | _, [] => []
  | f, (id, r) :: rest =>
    let (f, a) := f.answer id r
    a :: f.answerAll rest

end StoredFamily

end Table

end Formula
