/-
  Erl.Value

  The values that variables hold and expressions produce.

  A truth value is the number one or zero, and only a number other than zero counts as true.
  An error is a value too: it stands for an evaluation that failed, and every operation on it
  fails with the same error.
-/

import Erl.Decimal.Text

namespace Erl

/-- Position of a variable in the table of variables. -/
abbrev VariableId := Nat

/-- Position of a trend in the table of trends. -/
abbrev TrendId := Nat

/-- Position of a program or subroutine in the table of programs. -/
abbrev ProgramId := Nat

/-- A value. -/
inductive Value where
  | null
  | number (x : Float)
  | text (s : String)
  /-- Reserved; no expression produces one. -/
  | array
  | variableRef (id : VariableId)
  | trendRef (id : TrendId)
  | error (message : String)
  deriving Repr, DecidableEq, Inhabited

namespace Value

/-- The number of a truth value. -/
def ofBool (b : Bool) : Value :=
  if b then number 1.0 else number 0.0

/-- What kind of value it is. -/
def kindLabel : Value → String
  | null => "Null"
  | number _ => "Number"
  | text _ => "String"
  | array => "Array"
  | variableRef _ => "Variable"
  | trendRef _ => "Trend"
  | error _ => "Error"

/-- How messages write a value. -/
def display : Value → String
  | null => "Null"
  | number x => Decimal.text x
  | text s => "\"" ++ s ++ "\""
  | array => "Array"
  | variableRef id => "Variable#" ++ Nat.repr id
  | trendRef id => "Trend#" ++ Nat.repr id
  | error message => "Error: " ++ message

/-- Whether a guard with this value holds. -/
def holds : Value → Bool
  | number x => x != 0.0
  | _ => false

/-- Whether it stands for a failed evaluation. -/
def isError : Value → Bool
  | error _ => true
  | _ => false

/-- Whether it is the null value. -/
def isNull : Value → Bool
  | null => true
  | _ => false

/-- The text of a message given as a value: strings stand for themselves. -/
def asMessage : Value → String
  | text s => s
  | v => v.display

end Value

end Erl
