/-
  Erl.Expr.Basic

  Expressions as they are written, with names not yet resolved.
-/

import Erl.Operation.Catalog
import Erl.Token.Basic

namespace Erl

/-- A constant operand. -/
inductive Literal where
  | number (x : Float)
  | text (s : String)
  | null
  deriving Repr, DecidableEq

/-- An expression; a name stands for a variable or a trend. -/
inductive Expr where
  | literal (l : Literal)
  | name (spelling : String) (location : Location)
  | negate (operand : Expr)
  | binary (op : BinaryOp) (left right : Expr)
  | call (f : Builtin) (arguments : List Expr) (location : Location)
  deriving Repr

/-- The constant that a word denotes, in any letter case. -/
def Literal.named? (word : String) : Option Literal :=
  match Text.fold word with
  | "TRUE" => some (.number 1.0)
  | "ON" => some (.number 1.0)
  | "FALSE" => some (.number 0.0)
  | "OFF" => some (.number 0.0)
  | "NULL" => some .null
  | "PI" => some (.number 3.141592653589793)
  | _ => none

end Erl
