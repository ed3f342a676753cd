import Formula.Closure.Gradient
import Formula.Keyword

/-!
# Using a closure

A closure can be applied, mapped over an axis, differentiated, or asked about itself. Whichever is
asked for, the arguments are looked at in the same way. To apply a closure or to count its arguments
is to call a method of it, so there an argument cannot be given under the name of the receiver. What
is made of a closure is a function like any other, and takes every name.
-/

namespace Formula

namespace Closure

/-- What is asked of a closure. -/
inductive Use where
  | value
  | mapped (axes : MappedAxes)
  | slope (position : Position)
  | counts
  | text

inductive Result where
  | tensor (value : Tensor Double)
  | slope (value : Double)
  | counts (arguments results : Nat)
  | text (text : String)

/-- Why there is no result. -/
inductive UseError where
  | receiver (error : ReceiverClash)
  | argument (error : ArgumentError)
  | run (error : RunError)

/-- Goes on with the arguments in the order of the names. -/
def withArguments (f : Closure) (args : Arguments (Tensor Double))
    (k : List (Tensor Double) → Except RunError Result) : Except UseError Result :=
  match args.resolve f.argNames with
  | .error e => .error (.argument e)
  | .ok args =>
    match k args with
    | .ok r => .ok r
    | .error e => .error (.run e)

/-- The result of a use where every name may be given. A position by name is looked up before the
arguments are; the arguments of a slope are single numbers. -/
def perform (f : Closure) (K : Kernels) (args : Arguments (Tensor Double)) :
    Use → Except UseError Result
  | .value => f.withArguments args fun args => (f.apply K args).map .tensor
  | .mapped axes => f.withArguments args fun args => (f.applyMapped K axes args).map .tensor
  | .slope position =>
    match f.positionOf position with
    | .error e => .error (.argument e)
    | .ok i => f.withArguments args fun args =>
      (f.gradient K.calculus i (args.map fun t => t.get [])).map .slope
  | .counts => f.withArguments args fun args => .ok (.counts args.length 1)
  | .text => .ok (.text f.text)

def valueMethod : String := "JaxFunction.__call__"

def countsMethod : String := "JaxFunction.trace"

/-- The method that is called with the arguments, if it is one. -/
def Use.method? : Use → Option String
  | .value => some valueMethod
  | .counts => some countsMethod
  | .mapped _ | .slope _ | .text => none

/-- The result of a use. A method binds its keywords before it looks at them. -/
def use (f : Closure) (K : Kernels) (args : Arguments (Tensor Double)) (u : Use) :
    Except UseError Result :=
  match u.method? with
  | none => f.perform K args u
  | some method =>
    match bindKeywords method args.named with
    | .ok named => f.perform K ⟨args.positional, named⟩ u
    | .error clash => .error (.receiver clash)

end Closure

end Formula
