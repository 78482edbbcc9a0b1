/-
  Erl.Expr.Fault

  Why a source text is not a program, and where.
-/

import Erl.Expr.Basic
import Erl.Token.Lexer

namespace Erl

/-- A block that is open until its closing keyword. -/
inductive BlockKind where
  | branch
  | loop
  deriving Repr, DecidableEq

/-- The keyword that opens a block. -/
def BlockKind.opener : BlockKind → Keyword
  | branch => .if_
  | loop => .while_

/-- The keyword that closes a block. -/
def BlockKind.closer : BlockKind → Keyword
  | branch => .endIf
  | loop => .endWhile

/-- Why a text cannot be parsed. -/
inductive SyntaxFault where
  | lexical (fault : LexicalFault)
  /-- No operand where one is needed. -/
  | expectedExpression (found : Token)
  | unknownFunction (name : String)
  | unclosedParen (found : Token)
  | tooFewArguments (f : Builtin) (count : Nat)
  | afterExpression (found : Token)
  /-- No name after `SET` or `RUN`. -/
  | expectedName (after : Keyword) (found : Token)
  | expectedAssign (found : Token)
  | expectedKeyword (found : Token)
  | afterStatement (found : Token)
  /-- `ELSEIF` or `ELSE` outside a branch. -/
  | outsideBranch (k : Keyword)
  | afterElse (k : Keyword)
  /-- A closing keyword while a block of the other kind is innermost. -/
  | wrongCloser (closing innermost : BlockKind)
  | unopened (closing : BlockKind)
  | unclosed (block : BlockKind)
  deriving Repr, DecidableEq

/-- The wording of a fault. -/
def SyntaxFault.message : SyntaxFault → String
  | lexical fault => fault.message
  | expectedExpression found => "Expected an expression, found " ++ found.describe
  | unknownFunction name => "Unknown function '@" ++ name ++ "'"
  | unclosedParen found =>
    "Expected ')' to close parenthesised expression, found " ++ found.describe
  | tooFewArguments f count =>
    let noun := match f.arity with
      | .exactly _ => " argument(s), found "
      | .between _ _ => " arguments, found "
    f.symbol ++ " expects " ++ f.arity.text ++ noun ++ Nat.repr count
  | afterExpression found => "Unexpected " ++ found.describe ++ " after expression"
  | expectedName k found => "Expected a name after " ++ k.spelling ++ ", found " ++ found.describe
  | expectedAssign found => "Expected '=' after SET target, found " ++ found.describe
  | expectedKeyword found => "Expected a statement keyword, found " ++ found.describe
  | afterStatement found => "Unexpected " ++ found.describe ++ " at end of statement"
  | outsideBranch k => k.spelling ++ " without a matching IF"
  | afterElse k => k.spelling ++ " after ELSE"
  | wrongCloser closing innermost =>
    closing.closer.spelling ++ " inside an open " ++ innermost.opener.spelling ++ " block"
  | unopened closing =>
    closing.closer.spelling ++ " without a matching " ++ closing.opener.spelling
  | unclosed block => block.opener.spelling ++ " block is never closed"

/-- A fault and the place of the text that has it. -/
structure SyntaxError where
  fault : SyntaxFault
  location : Location
  deriving Repr, DecidableEq

/-- The wording of an error, with its place. -/
def SyntaxError.message (e : SyntaxError) : String :=
  "Parse error at line " ++ Nat.repr e.location.line ++ ", column "
    ++ Nat.repr e.location.column ++ ": " ++ e.fault.message

/-- A lexical error as a parse error. -/
def SyntaxError.ofLexical (e : LexicalError) : SyntaxError :=
  ⟨.lexical e.fault, e.location⟩

end Erl
