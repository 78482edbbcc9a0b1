/-
  Erl.Code.Statement

  Reading the statement of one line.

  A statement is read up to where its own grammar ends; whether anything follows it, and
  whether its block keyword has a partner, is judged by the reader of the whole program.
-/

import Erl.Code.Basic
import Erl.Expr.Parser

namespace Erl

/-- A statement, without regard to the block it stands in. -/
inductive Statement where
  | set (target : String) (value : Expr)
  | run (subroutine : String)
  | return_
  | if_ (condition : Expr)
  | elseIf (condition : Expr)
  | else_
  | endIf
  | while_ (condition : Expr)
  | endWhile
  deriving Repr

namespace Statement

/-- A name after a keyword. -/
def name (stop : Location) (after : Keyword) (ts : List Lexeme) :
    Except SyntaxError (String × List Lexeme) :=
  match ts with
  | ⟨.name s, _⟩ :: rest => .ok (s, rest)
  | ts => Parser.fail stop ts (.expectedName after)

/-- The target and the value of an assignment. -/
def assignment (stop : Location) (ts : List Lexeme) :
    Except SyntaxError (Statement × List Lexeme) :=
  match name stop .set ts with
  | .error e => .error e
  | .ok (target, ⟨.assign, _⟩ :: rest) =>
    (Parser.expression stop rest).map fun (value, rest') => (.set target value, rest')
  | .ok (_, rest) => Parser.fail stop rest .expectedAssign

/-- A statement whose only operand is an expression. -/
def guarded (stop : Location) (make : Expr → Statement) (ts : List Lexeme) :
    Except SyntaxError (Statement × List Lexeme) :=
  (Parser.expression stop ts).map fun (condition, rest) => (make condition, rest)

/-- The statement at the front of a token list, and the tokens after it. -/
def read (stop : Location) (ts : List Lexeme) : Except SyntaxError (Statement × List Lexeme) :=
  match ts with
  | ⟨.keyword .set, _⟩ :: rest => assignment stop rest
  | ⟨.keyword .run, _⟩ :: rest =>
    (name stop .run rest).map fun (subroutine, rest') => (.run subroutine, rest')
  | ⟨.keyword .return_, _⟩ :: rest => .ok (.return_, rest)
  | ⟨.keyword .if_, _⟩ :: rest => guarded stop .if_ rest
  | ⟨.keyword .elseIf, _⟩ :: rest => guarded stop .elseIf rest
  | ⟨.keyword .else_, _⟩ :: rest => .ok (.else_, rest)
  | ⟨.keyword .endIf, _⟩ :: rest => .ok (.endIf, rest)
  | ⟨.keyword .while_, _⟩ :: rest => guarded stop .while_ rest
  | ⟨.keyword .endWhile, _⟩ :: rest => .ok (.endWhile, rest)
  | ts => Parser.fail stop ts .expectedKeyword

end Statement

end Erl
