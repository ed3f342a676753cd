import Formula.Text.Quoted

/-!
# Errors of formulas

A text that is not a formula is refused with a cause and the span of the text that shows it, counted
in characters. The message names both and repeats the text of the span, if it has one.
-/

namespace Formula

/-- Why a text is not a formula. -/
inductive CompileError.Cause where
  | digitAfterPoint
  | digitInExponent
  | noNumber (text : String)
  | numberOutOfRange (text : String)
  | operandExpected
  | unexpectedInput
  | missingCloseBracket
  | unmatchedCloseBracket
  deriving DecidableEq

/-- A cause, the span `start` to `stop`, and the text of the span. -/
structure CompileError where
  cause : CompileError.Cause
  start : Nat
  stop : Nat
  found : Option String
  deriving DecidableEq

namespace CompileError

def Cause.detail : Cause → String
  | .digitAfterPoint => "Digit expected after the decimal point"
  | .digitInExponent => "Digit expected in exponent"
  | .noNumber text => "Invalid numeric literal " ++ Text.quoted text
  | .numberOutOfRange text => "Numeric literal " ++ Text.quoted text ++ " is out of range"
  | .operandExpected => "Syntax error: operand expected"
  | .unexpectedInput => "Syntax error: unexpected input"
  | .missingCloseBracket => "Missing close bracket(s)"
  | .unmatchedCloseBracket => "Right bracket mismatch"

/-- A detail with its span and the text found there. -/
def describe (detail : String) (start stop : Int) (found : Option String) : String :=
  detail ++ " at span [" ++ toString start ++ ", " ++ toString stop ++ ")"
    ++ match found with
      | none => ""
      | some text => "; found " ++ Text.quoted text

def detail (e : CompileError) : String := e.cause.detail

def message (e : CompileError) : String := describe e.detail e.start e.stop e.found

end CompileError

end Formula
