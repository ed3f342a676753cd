import Formula.Table.Basic

/-!
# Families of tables

Tables are held under names of their own, and new ones arise as copies. A request concerns one
table, and no other table changes: a copy has its own names and values from the moment it is made.
-/

namespace Formula

namespace Table

/-- What a table can be asked. -/
inductive Request where
  | slotFor (name : String)
  | slot (name : String)
  | set (name : String) (value : Double)
  | value (name : String)
  | lookup (name : String)
  | contains (name : String)
  | size
  | names
  | values
  | entries
  | copy (id : String)

inductive Answer where
  | done
  | count (n : Nat)
  | number (value : Double)
  | maybeNumber (value : Option Double)
  | flag (value : Bool)
  | names (names : List String)
  | numbers (values : List Double)
  | bindings (entries : List (String × Double))
  | unknown (error : UnknownVariable)
  | unbound (id : String)

/-- Tables by name. -/
structure Family where
  tables : List (String × Table)

namespace Family

def single (id : String) (t : Table) : Family := ⟨[(id, t)]⟩

/-- Holds a table under a name, in place of the one before. -/
def put (f : Family) (id : String) (t : Table) : Family :=
  ⟨(id, t) :: f.tables.filter fun e => e.1 ≠ id⟩

def answerBy {α : Type} (g : α → Answer) : Except UnknownVariable α → Answer
  | .ok x => g x
  | .error e => .unknown e

/-- Answers a request to the table under a name. -/
def answer (f : Family) (id : String) (r : Request) : Family × Answer :=
  match f.tables.lookup id with
  | none => (f, .unbound id)
  | some t =>
    match r with
    | .slotFor name => (f.put id (t.slotFor name).2, .count (t.slotFor name).1)
    | .slot name => (f, answerBy .count (t.slot name))
    | .set name v => (f.put id (t.set name v), .done)
    | .value name => (f, answerBy .number (t.value name))
    | .lookup name => (f, .maybeNumber (t.lookup name))
    | .contains name => (f, .flag (t.contains name))
    | .size => (f, .count t.size)
    | .names => (f, .names t.names)
    | .values => (f, .numbers t.values)
    | .entries => (f, .bindings t.entries)
    | .copy other => (f.put other t, .done)

/-- Answers requests in order. -/
def answerAll : Family → List (String × Request) → List Answer
  | _, [] => []
  | f, (id, r) :: rest =>
    let (f, a) := f.answer id r
    a :: f.answerAll rest

end Family

end Table

end Formula
