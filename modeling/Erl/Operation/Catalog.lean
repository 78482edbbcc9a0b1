/-
  Erl.Operation.Catalog

  The catalog of everything an expression node can do.

  The catalog has 68 entries: operand access, negation, the operators between two operands
  and the built-in functions.  The numbers of the entries are fixed and dense, from 1 on; for
  operators the number is also the precedence.
-/

import Erl.Operation.Operator
import Erl.Operation.Builtin

namespace Erl

/-- What an expression node does. -/
inductive Operation where
  | literal
  | negate
  | binary (op : BinaryOp)
  | call (f : Builtin)
  deriving Repr, DecidableEq

namespace Operation

/-- The catalog, in the order of its numbers. -/
def all : List Operation :=
  [literal, negate] ++ BinaryOp.all.map binary ++ Builtin.all.map call

/-- The number of an entry. -/
def id : Operation → Nat
  | literal => 1
  | negate => 2
  | binary op => op.precedence
  | call f => 16 + Builtin.all.idxOf f

/-- The entry of a number; there are entries for 1 to 68. -/
def ofId? (n : Nat) : Option Operation :=
  if n = 0 then none else all[n - 1]?

/-- How an operation is written. -/
def symbol : Operation → String
  | literal => "Literal"
  | negate => "-"
  | binary op => op.symbol
  | call f => f.symbol

/-- How many operands an operation takes. -/
def arity : Operation → Arity
  | literal => .exactly 1
  | negate => .exactly 1
  | binary _ => .exactly 2
  | call f => f.arity

end Operation

end Erl
