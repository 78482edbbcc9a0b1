/-
  Erl.Routine.Refusal

  Why a numeric routine or a performance curve has no result.
-/

import Erl.MoistAir.Relation
import Erl.Operation.Builtin
import Erl.Decimal.Text

namespace Erl

/-- Why there is no result. -/
inductive Refusal where
  | zeroDivisor
  | outsideUnit (f : MathFunction) (x : Float)
  | notPositive (x : Float)
  | uniformBounds (low high : Float)
  | normalBounds (least greatest : Float)
  | argumentCount (f : Builtin) (count : Nat)
  | notNumeric (f : Builtin)
  | air (fault : MoistAir.Fault Float)
  /-- The result of what the label names is infinite or not a number. -/
  | notFinite (label : String)
  | duplicateCurve (name : String)
  | coefficientsNeeded (name : String) (needed count : Nat)
  | inputsNeeded (name : String) (needed count : Nat)
  | noCurve (index : Nat)
  /-- A refusal by a host's own routine, in its own words. -/
  | host (message : String)
  deriving Repr, DecidableEq

/-- The wording of a fault of moist air. -/
def MoistAir.Fault.message : MoistAir.Fault Float → String
  | .pressure p => "barometric pressure " ++ Decimal.text p ++ " Pa is not positive"
  | .belowAbsoluteZero t => "temperature " ++ Decimal.text t ++ " °C is below absolute zero"
  | .saturated vapor p =>
    "vapour pressure " ++ Decimal.textOnePlace vapor ++ " Pa reaches barometric pressure "
      ++ Decimal.text p ++ " Pa"

/-- The wording of an error. -/
def Refusal.message : Refusal → String
  | zeroDivisor => "@Mod divisor is zero"
  | outsideUnit f x =>
    (Builtin.math f).symbol ++ " argument " ++ Decimal.text x ++ " is outside [-1, 1]"
  | notPositive x => "@Ln argument " ++ Decimal.text x ++ " is not positive"
  | uniformBounds low high =>
    "@RandomUniform upper bound " ++ Decimal.text high ++ " is below lower bound "
      ++ Decimal.text low
  | normalBounds least greatest =>
    "@RandomNormal maximum " ++ Decimal.text greatest ++ " is below minimum "
      ++ Decimal.text least
  | argumentCount f count =>
    f.symbol ++ " does not accept " ++ Nat.repr count ++ " argument(s)"
  | notNumeric f => f.symbol ++ " is not a numeric routine"
  | air fault => fault.message
  | notFinite label => label ++ " produced a non-finite result"
  | duplicateCurve name => "duplicate curve name \"" ++ name ++ "\""
  | coefficientsNeeded name needed count =>
    "curve \"" ++ name ++ "\" needs " ++ Nat.repr needed ++ " coefficients, got "
      ++ Nat.repr count
  | inputsNeeded name needed count =>
    "curve \"" ++ name ++ "\" expects " ++ Nat.repr needed ++ " independent variable(s), got "
      ++ Nat.repr count
  | noCurve index => "curve index " ++ Nat.repr index ++ " does not exist"
  | host message => message

/-- A finite result; anything else is an error of what the label names. -/
def finite (label : String) (x : Float) : Except Refusal Float :=
  if x.isFinite then .ok x else .error (.notFinite label)

end Erl
