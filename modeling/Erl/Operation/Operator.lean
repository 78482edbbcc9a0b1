/-
  Erl.Operation.Operator

  The operators that stand between two operands.

  Each operator has a precedence, and a lower precedence binds tighter.  No two operators
  share one, so `a * b / c` groups as `a * (b / c)`, and only a chain of one and the same
  operator is a matter of associativity.
-/

namespace Erl

/-- An operator with two operands. -/
inductive BinaryOp where
  | divide
  | multiply
  | subtract
  | add
  | equal
  | notEqual
  | lessOrEqual
  | greaterOrEqual
  | lessThan
  | greaterThan
  | power
  | and
  | or
  deriving Repr, DecidableEq

namespace BinaryOp

/-- All operators, the tightest first. -/
def all : List BinaryOp :=
  [divide, multiply, subtract, add, equal, notEqual, lessOrEqual, greaterOrEqual, lessThan,
    greaterThan, power, and, or]

/-- Position in the binding order; a lower one binds tighter. -/
def precedence : BinaryOp → Nat
  | divide => 3
  | multiply => 4
  | subtract => 5
  | add => 6
  | equal => 7
  | notEqual => 8
  | lessOrEqual => 9
  | greaterOrEqual => 10
  | lessThan => 11
  | greaterThan => 12
  | power => 13
  | and => 14
  | or => 15

/-- How an operator is written. -/
def symbol : BinaryOp → String
  | divide => "/"
  | multiply => "*"
  | subtract => "-"
  | add => "+"
  | equal => "=="
  | notEqual => "<>"
  | lessOrEqual => "<="
  | greaterOrEqual => ">="
  | lessThan => "<"
  | greaterThan => ">"
  | power => "^"
  | and => "&&"
  | or => "||"

end BinaryOp

end Erl
