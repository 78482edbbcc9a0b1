/-
  Erl.Token.Basic

  The words of a source line, and where they stand.
-/

import Erl.Decimal.Text
import Erl.Operation.Operator

namespace Erl

/-- A place in a source text; lines and columns count from one, columns in characters. -/
structure Location where
  line : Nat
  column : Nat
  deriving Repr, DecidableEq

/-- A word that starts a statement. -/
inductive Keyword where
  | set
  | run
  | return_
  | if_
  | elseIf
  | else_
  | endIf
  | while_
  | endWhile
  deriving Repr, DecidableEq

namespace Keyword

/-- All keywords. -/
def all : List Keyword :=
  [set, run, return_, if_, elseIf, else_, endIf, while_, endWhile]

/-- How a keyword is written, in upper case. -/
def spelling : Keyword → String
  | set => "SET"
  | run => "RUN"
  | return_ => "RETURN"
  | if_ => "IF"
  | elseIf => "ELSEIF"
  | else_ => "ELSE"
  | endIf => "ENDIF"
  | while_ => "WHILE"
  | endWhile => "ENDWHILE"

end Keyword

/-- A word of a source line. -/
inductive Token where
  | number (x : Float)
  | text (s : String)
  | name (spelling : String)
  | function (name : String)
  | keyword (k : Keyword)
  | operator (op : BinaryOp)
  | assign
  | leftParen
  | rightParen
  | endOfLine
  deriving Repr, DecidableEq

/-- How messages speak of a token. -/
def Token.describe : Token → String
  | number x => "number " ++ Decimal.text x
  | text s => "string \"" ++ s ++ "\""
  | name s => "name '" ++ s ++ "'"
  | function s => "function '@" ++ s ++ "'"
  | keyword k => "'" ++ k.spelling ++ "'"
  | operator op => "'" ++ op.symbol ++ "'"
  | assign => "'='"
  | leftParen => "'('"
  | rightParen => "')'"
  | endOfLine => "end of line"

/-- A token and the place of its first character. -/
structure Lexeme where
  token : Token
  location : Location
  deriving Repr, DecidableEq

/-- The tokens of one line and the place where the line ends: its comment, or one past its
    last character. -/
structure LexedLine where
  lexemes : List Lexeme
  stop : Location
  deriving Repr, DecidableEq

/-- The tokens with the end of the line as the last one. -/
def LexedLine.withEnd (l : LexedLine) : List Lexeme :=
  l.lexemes ++ [⟨.endOfLine, l.stop⟩]

end Erl
