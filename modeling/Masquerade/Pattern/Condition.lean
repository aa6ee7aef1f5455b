/-
  Masquerade.Pattern.Condition — CONDITIONS on a remembered value.
-/
import Masquerade.Pattern.Value

namespace Masquerade

/-- A test of one value. -/
inductive Condition where
  /-- Equal; numeric values are compared by their integer views. -/
  | equals (expected : Value)
  /-- Numerically above the bound. -/
  | greater (bound : Int64)
  /-- Numerically below the bound. -/
  | lesser (bound : Int64)
  deriving DecidableEq, Repr

/-- **Whether a value meets a condition.**  A flag is never above or below a
    bound, and equals only the same flag. -/
def Condition.holds : Condition → Value → Bool
  | .equals expected, value =>
    match value.toInt?, expected.toInt? with
    | some a, some b => a == b
    | _, _ => value == expected
  | .greater bound, value => value.toInt?.any (fun n => decide (bound.toInt < n))
  | .lesser bound, value => value.toInt?.any (fun n => decide (n < bound.toInt))

end Masquerade
