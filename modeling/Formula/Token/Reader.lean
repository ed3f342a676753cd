import Formula.Table.Basic
import Formula.Token.Basic

/-!
# Reading single tokens

A reader holds a text and a table. It reads one token at a time, where its last one ended or at any
other position, and gives the names that it reads their slots. A token that cannot be read changes
nothing.
-/

namespace Formula

/-- A text, the position behind the last token, and the table with the names read. -/
structure Reader where
  text : String
  pos : Nat
  table : Table

/-- A token as it goes into a program: a name has its slot. -/
structure Entry where
  token : Token
  slot : Option Nat

namespace Reader

def start (text : String) (table : Table) : Reader := ⟨text, 0, table⟩

/-- Gives a name its slot. -/
def enter (table : Table) : Token → Entry × Table
  | .name word =>
    let (slot, table) := table.slotFor word
    (⟨.name word, some slot⟩, table)
  | t => (⟨t, none⟩, table)

/-- Reads a token at a position, or behind the last one. Where no token of the expected kind
stands, the reader moves past the spaces. -/
def next (r : Reader) (expected : Expected) (pos : Option Nat) :
    Reader × Except CompileError (Option Entry) :=
  match (Cursor.ofText r.text (pos.getD r.pos)).readToken expected with
  | .error e => (r, .error e)
  | .ok (none, c) => ({ r with pos := c.pos }, .ok none)
  | .ok (some t, c) =>
    let (entry, table) := enter r.table t
    (⟨r.text, c.pos, table⟩, .ok (some entry))

end Reader

end Formula
