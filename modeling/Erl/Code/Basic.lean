/-
  Erl.Code.Basic

  Programs as flat lists of instructions with jump targets.

  A target is an index into the list.  A guard that is not true sends control to `next`, the
  following `elseIf`, `else_` or `endIf` of its block; control that reaches an `elseIf` or
  `else_` from above has run a branch already and goes to `stop`, the `endIf` of the block.
  `while_` and `endWhile` point at each other.

  The same shape serves a program as it is written and a program that is ready to run: they
  differ in what stands for an assigned variable, an expression and a subroutine.
-/

import Erl.Expr.Basic

namespace Erl

/-- One instruction: assignments name a `τ`, expressions are `ε`, subroutines are `σ`. -/
inductive Instruction (τ ε σ : Type) where
  | set (target : τ) (value : ε)
  | run (subroutine : σ)
  | return_
  | if_ (condition : ε) (next : Nat)
  | elseIf (condition : ε) (next stop : Nat)
  | else_ (stop : Nat)
  | endIf
  | while_ (condition : ε) (stop : Nat)
  | endWhile (start : Nat)
  deriving Repr

/-- An instruction, the text it was written as and the place of that text. -/
structure Line (τ ε σ : Type) where
  location : Location
  text : String
  instruction : Instruction τ ε σ
  deriving Repr

/-- A line of a program as it is written, with all names unresolved. -/
abbrev SourceLine := Line String Expr String

end Erl
