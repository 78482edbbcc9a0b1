/-
  Erl.Machine.Operator

  What operators compute, and why an evaluation can fail.

  A failed evaluation is an error value with the wording of its cause.  Results that are
  infinite or not a number fail; comparisons of numbers and the logical operators never do.
-/

import Erl.Expr.Basic
import Erl.Number.Integral
import Erl.Routine.Refusal
import Erl.Value

namespace Erl

/-- Why an evaluation fails. -/
inductive EvalFault where
  | expectedNumber (found : Value)
  | divideByZero
  | notFinite (op : BinaryOp) (a b : Float)
  | fractionalPower (base exponent : Float)
  | incomparable (a b : Value)
  | operandCount (operation : Operation) (count : Nat)
  | missingNode (id : Nat)
  /-- An argument of a function that is not a number. -/
  | argument (f : Builtin) (found : Value)
  | domain (f : Builtin) (e : Refusal)
  | curveIndex (x : Float)
  | notTrend (f : Builtin) (found : Value)
  | missingTrend (f : Builtin) (id : TrendId)
  | sampleCount (found : Value)
  | noSamples (f : Builtin) (trend : String)
  | fewSamples (f : Builtin) (trend : String) (count : Nat)
  | missingOperand (f : Builtin)
  deriving Repr, DecidableEq

/-- The wording of a cause. -/
def EvalFault.message : EvalFault → String
  | expectedNumber v => "expected Number, got " ++ v.kindLabel
  | divideByZero => "divide by zero"
  | notFinite op a b =>
    Decimal.text a ++ " " ++ op.symbol ++ " " ++ Decimal.text b ++ " is not finite"
  | fractionalPower base exponent =>
    "cannot raise negative base " ++ Decimal.text base ++ " to fractional power "
      ++ Decimal.text exponent
  | incomparable a b => "cannot compare " ++ a.kindLabel ++ " with " ++ b.kindLabel
  | operandCount operation count =>
    operation.symbol ++ " expects " ++ operation.arity.text ++ " operand(s), got "
      ++ Nat.repr count
  | missingNode id => "expression " ++ Nat.repr id ++ " does not exist"
  | argument f v => f.symbol ++ ": expected Number, got " ++ v.kindLabel
  | domain f e => f.symbol ++ ": " ++ e.message
  | curveIndex x => Builtin.curveValue.symbol ++ ": invalid curve index " ++ Decimal.text x
  | notTrend f v => f.symbol ++ ": first operand must be a trend, got " ++ v.kindLabel
  | missingTrend f id => f.symbol ++ ": trend " ++ Nat.repr id ++ " does not exist"
  | sampleCount v =>
    "trend sample count must be a number of at least 1, got " ++ v.display
  | noSamples f trend => f.symbol ++ ": trend " ++ trend ++ " has no samples yet"
  | fewSamples f trend count =>
    f.symbol ++ ": trend " ++ trend ++ " has only " ++ Nat.repr count ++ " samples"
  | missingOperand f => f.symbol ++ ": missing operand"

/-- The error value of a cause. -/
def Value.ofFault (fault : EvalFault) : Value :=
  .error fault.message

/-- The value of an evaluation that may fail. -/
def Value.ofExcept : Except EvalFault Value → Value
  | .ok v => v
  | .error fault => .ofFault fault

/-- The number that a value is. -/
def Value.toNumber : Value → Except EvalFault Float
  | .number x => .ok x
  | v => .error (.expectedNumber v)

namespace BinaryOp

/-- The result of an arithmetic operator, if it is finite. -/
def finiteResult (op : BinaryOp) (a b result : Float) : Except EvalFault Value :=
  if result.isFinite then .ok (.number result) else .error (.notFinite op a b)

/-- An operator on two numbers. -/
def onNumbers (op : BinaryOp) (a b : Float) : Except EvalFault Value :=
  match op with
  | divide => if b == 0.0 then .error .divideByZero else finiteResult op a b (a / b)
  | multiply => finiteResult op a b (a * b)
  | subtract => finiteResult op a b (a - b)
  | add => finiteResult op a b (a + b)
  | equal => .ok (.ofBool (a == b))
  | notEqual => .ok (.ofBool (a != b))
  | lessOrEqual => .ok (.ofBool (a ≤ b))
  | greaterOrEqual => .ok (.ofBool (b ≤ a))
  | lessThan => .ok (.ofBool (a < b))
  | greaterThan => .ok (.ofBool (b < a))
  | power =>
    if a < 0.0 && !Number.isWhole b then .error (.fractionalPower a b)
    else finiteResult op a b (a.pow b)
  | and => .ok (.ofBool (a != 0.0 && b != 0.0))
  | or => .ok (.ofBool (a != 0.0 || b != 0.0))

/-- Whether two values are the same: numbers, nulls, or strings up to letter case. -/
def same (a b : Value) : Except EvalFault Bool :=
  match a, b with
  | .number x, .number y => .ok (x == y)
  | .null, .null => .ok true
  | .text s, .text t => .ok (Text.sameName s t)
  | _, _ => .error (.incomparable a b)

/-- An operator on two values, of which the left one is judged first. -/
def apply (op : BinaryOp) (a b : Value) : Except EvalFault Value :=
  match op with
  | equal => (same a b).map .ofBool
  | notEqual => (same a b).map fun s => .ofBool !s
  | op =>
    match a.toNumber with
    | .error fault => .error fault
    | .ok x =>
      match b.toNumber with
      | .error fault => .error fault
      | .ok y => op.onNumbers x y

end BinaryOp

/-- Negation of a value. -/
def Value.negate (v : Value) : Except EvalFault Value :=
  v.toNumber.map fun x => .number (-x)

end Erl
