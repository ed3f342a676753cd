import Formula.Text.Integer
import Formula.Text.Quoted

/-!
# Settings

Two settings come from the environment: whether constants are folded unless a formula says
otherwise, and how many compiled formulas are kept.
-/

namespace Formula

structure Settings where
  foldByDefault : Bool
  cacheCapacity : Nat

/-- A text that is no integer, one with too many digits, or an integer too large for a count. -/
inductive SettingsError where
  | notInteger (text : String)
  | tooLong (digits : Nat)
  | tooLarge
  deriving DecidableEq

namespace SettingsError

/-- How many characters of a quoted text a message shows. -/
def shownLength : Nat := 200

def message : SettingsError → String
  | .notInteger text =>
    "invalid literal for int() with base 10: "
      ++ String.ofList ((Text.quotedChars text.toList).take shownLength)
  | .tooLong digits =>
    "Exceeds the limit (" ++ toString Text.digitLimit
      ++ " digits) for integer string conversion: value has " ++ toString digits
      ++ " digits; use sys.set_int_max_str_digits() to increase the limit"
  | .tooLarge => "cannot fit 'int' into an index-sized integer"

end SettingsError

namespace Settings

def foldingVariable : String := "RPN_EXPR_DISABLE_CONSTANT_FOLDING"

def capacityVariable : String := "RPN_EXPR_COMPILE_CACHE_MAX"

def default : Settings := ⟨true, 512⟩

/-- The settings of an environment. At least one formula is kept. -/
def ofEnvironment (env : List (String × String)) : Except SettingsError Settings :=
  let foldByDefault := env.lookup foldingVariable ≠ some "1"
  match env.lookup capacityVariable with
  | none => .ok { default with foldByDefault }
  | some text =>
    match Text.integer text with
    | .error .malformed => .error (.notInteger text)
    | .error (.tooLong digits) => .error (.tooLong digits)
    | .ok n =>
      if 0x8000000000000000 ≤ n then .error .tooLarge else .ok ⟨foldByDefault, max 1 n.toNat⟩

/-- Whether to fold, where a formula may say so. -/
def fold (s : Settings) (wish : Option Bool) : Bool := wish.getD s.foldByDefault

end Settings

end Formula
