import Formula.Report.Rate

/-!
# The report as data

A report can be written as JSON, indented by two blanks for each level: what is known of the host,
and the rows. A text is written in ASCII; a character outside the first plane takes two escapes, and
one alone, for a lone surrogate, is never written. NaN and the infinities have words of their own.
-/

namespace Formula.Report

/-! ## Texts and numbers -/

def unitEscape (unit : Nat) : List Char := '\\' :: 'u' :: Text.hexDigits unit 4

def escapedChar (c : Char) : List Char :=
  let n := c.toNat
  if c = '"' ∨ c = '\\' then ['\\', c]
  else if c = '\n' then ['\\', 'n']
  else if c = '\r' then ['\\', 'r']
  else if c = '\t' then ['\\', 't']
  else if n = 0x08 then ['\\', 'b']
  else if n = 0x0c then ['\\', 'f']
  else if 0x20 ≤ n ∧ n < 0x7f then [c]
  else if n < 0x10000 then unitEscape n
  else unitEscape (0xd800 + (n - 0x10000) / 0x400) ++ unitEscape (0xdc00 + n % 0x400)

def textData (s : String) : String :=
  String.ofList ('"' :: s.toList.flatMap escapedChar ++ ['"'])

def numberData (x : Double) : String :=
  if x.isNaN then "NaN"
  else if x.isInfinite then (if x.lt .zero then "-Infinity" else "Infinity")
  else x.text

/-! ## Rows -/

/-- The fields of a row, in order: its line, and its error, or its result and the rate. -/
def Row.fields (row : Row) (rate : String) : List (String × String) :=
  ("source", textData row.source) ::
    match row.outcome with
    | .ok v => [("result", (v.map numberData).getD "null"), ("calls_per_second", rate)]
    | .error e => [("error", textData e.message)]

/-- The fields of a row with its rate. -/
def TimedRow.fields (t : TimedRow) : List (String × String) := t.row.fields (numberData t.rate)

/-- Parts between an opening and a closing bracket, one a line and indented further than these. -/
def block (indent opening closing : String) (parts : List String) : String :=
  if parts.isEmpty then opening ++ closing
  else
    let inner := "\n" ++ indent ++ "  "
    opening ++ inner ++ String.intercalate ("," ++ inner) parts ++ "\n" ++ indent ++ closing

def objectData (indent : String) (fields : List (String × String)) : String :=
  block indent "\x7b" "\x7d" (fields.map fun f => textData f.1 ++ ": " ++ f.2)

/-! ## The whole report -/

/-- What is known of a host: texts with their names, in order. -/
abbrev Host := List (String × String)

def Host.fields (host : Host) : List (String × String) := host.map fun f => (f.1, textData f.2)

/-- The whole report. -/
def data (host : Host) (rows : List TimedRow) : String :=
  let rowObjects := rows.map fun t => objectData "    " t.fields
  objectData ""
    [("host", objectData "  " host.fields), ("rows", block "  " "[" "]" rowObjects)]

/-! ## Output -/

/-- What is printed for a row at once: its lines, unless the rows are to be written as data. -/
def TimedRow.printed (o : Options) (t : TimedRow) : List String :=
  if o.asData then [] else t.lines

/-- What is printed behind the rows: the whole report, if it is to be written as data. -/
def closing (host : Host) (o : Options) (rows : List TimedRow) : List String :=
  if o.asData then [data host rows] else []

end Formula.Report
