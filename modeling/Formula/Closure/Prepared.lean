import Formula.Closure.Use

/-!
# Functions made of a closure

A closure can be compiled, mapped over an axis or differentiated. A function that does so is made
when it is asked for first, and kept from then on. Mapped functions are kept by the text of their
axes and derivatives by the position of their argument, where a name stands for its first position.
-/

namespace Formula

namespace Closure

/-! ## Keys -/

/-- How the axis of an argument is written. -/
def axisText : Option Int → String
  | some axis => axis.repr
  | none => "None"

/-- How axes are written: one for all, or a list with one for each argument. -/
def MappedAxes.text : MappedAxes → String
  | .all axis => axis.repr
  | .each axes => "[" ++ String.intercalate ", " (axes.map axisText) ++ "]"

/-- The position by which a derivative is kept. It need not be in front or within bounds. -/
def slopeKey (f : Closure) : Position → Except ArgumentError Int
  | .index i => .ok i
  | .name name =>
    match f.argNames.idxOf? name with
    | some i => .ok i
    | none => .error (.unknownArgument name)

/-! ## Making and keeping -/

/-- A function of arguments by position or by name. -/
abbrev Transform := Arguments (Tensor Double) → Except UseError Result

/-- How a closure is used: directly, or compiled. -/
inductive Way where
  | direct (use : Use)
  | compiled

/-- What the closure is used for. -/
def Way.use : Way → Use
  | .direct use => use
  | .compiled => .value

/-- The method that is called with the arguments, if it is one. -/
def Way.method? : Way → Option String
  | .direct use => use.method?
  | .compiled => none

/-- A closure with the functions that have been made of it. -/
structure Prepared where
  closure : Closure
  compiled : Option Transform
  mapped : List (String × Transform)
  slopes : List (Int × Transform)

namespace Prepared

def ofClosure (f : Closure) : Prepared := ⟨f, none, [], []⟩

/-- The function for a way of use. It is taken from those that are kept, or else made and kept; a
derivative by an unknown name is neither. What is used directly needs no function of its own. -/
def obtain (p : Prepared) (K : Kernels) : Way → Prepared × Except ArgumentError Transform
  | .compiled =>
    match p.compiled with
    | some g => (p, .ok g)
    | none =>
      let g : Transform := fun args => p.closure.perform K args .value
      ({ p with compiled := some g }, .ok g)
  | .direct (.mapped axes) =>
    match p.mapped.lookup axes.text with
    | some g => (p, .ok g)
    | none =>
      let g : Transform := fun args => p.closure.perform K args (.mapped axes)
      ({ p with mapped := (axes.text, g) :: p.mapped }, .ok g)
  | .direct (.slope position) =>
    match p.closure.slopeKey position with
    | .error e => (p, .error e)
    | .ok key =>
      match p.slopes.lookup key with
      | some g => (p, .ok g)
      | none =>
        let g : Transform := fun args => p.closure.perform K args (.slope (.index key))
        ({ p with slopes := (key, g) :: p.slopes }, .ok g)
  | .direct use => (p, .ok fun args => p.closure.use K args use)

/-- Uses a closure with arguments. -/
def answer (p : Prepared) (K : Kernels) (way : Way) (args : Arguments (Tensor Double)) :
    Prepared × Except UseError Result :=
  match p.obtain K way with
  | (p, .ok g) => (p, g args)
  | (p, .error e) => (p, .error (.argument e))

/-- Uses a closure again and again. -/
def answerAll (K : Kernels) : Prepared → List (Way × Arguments (Tensor Double)) →
    List (Except UseError Result)
  | _, [] => []
  | p, (way, args) :: rest =>
    let (p, a) := p.answer K way args
    a :: p.answerAll K rest

end Prepared

end Closure

end Formula
