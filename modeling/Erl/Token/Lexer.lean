/-
  Erl.Token.Lexer

  Cutting a source line into tokens.

  Blanks separate tokens and a `!` outside a text starts a comment.  Each token is as long
  as it can be: a name or a numeral ends only before a character that cannot belong to it.
  An exponent belongs to a numeral only if it has digits.
-/

import Erl.Decimal.Numeral
import Erl.Text.Fold
import Erl.Text.Letter
import Erl.Text.Line
import Erl.Token.Basic

namespace Erl

/-- Why a token cannot be completed. -/
inductive LexicalFault where
  | unterminatedText
  | missingFunctionName
  | badNumeral (spelling : String)
  | unexpected (c : Char)
  deriving Repr, DecidableEq

/-- The wording of a fault. -/
def LexicalFault.message : LexicalFault → String
  | unterminatedText => "Unterminated string literal"
  | missingFunctionName => "Expected a function name after '@'"
  | badNumeral s => "Invalid number '" ++ s ++ "'"
  | unexpected c => "Unexpected character '" ++ String.singleton c ++ "'"

/-- A fault and the place of the first character of the token that has it. -/
structure LexicalError where
  fault : LexicalFault
  location : Location
  deriving Repr, DecidableEq

/-- The wording of an error, with its place. -/
def LexicalError.message (e : LexicalError) : String :=
  "Lexer error at line " ++ Nat.repr e.location.line ++ ", column "
    ++ Nat.repr e.location.column ++ ": " ++ e.fault.message

namespace Token

/-- The keyword or name that a word is; keywords are known in any letter case. -/
def ofWord (word : String) : Token :=
  match Keyword.all.find? fun k => k.spelling == Text.fold word with
  | some k => .keyword k
  | none => .name word

/-- The exponent at the start of a text, if it has digits. -/
def exponentPart (cs : List Char) : List Char :=
  match cs with
  | [] => []
  | e :: rest =>
    if e = 'e' ∨ e = 'E' then
      let sign := rest.take 1 |>.filter fun c => c = '+' ∨ c = '-'
      let digits := (rest.drop sign.length).takeWhile Char.isDigit
      if digits.isEmpty then [] else e :: (sign ++ digits)
    else []

/-- The numeral that starts with `c` and goes on in `cs`. -/
def numeralPart (c : Char) (cs : List Char) : List Char :=
  let mantissa := cs.takeWhile fun d => d.isDigit || d == '.'
  c :: (mantissa ++ exponentPart (cs.drop mantissa.length))

/-- Whether `c`, followed by `cs`, starts a numeral. -/
def startsNumeral (c : Char) (cs : List Char) : Bool :=
  c.isDigit || (c == '.' && (cs.take 1).any Char.isDigit)

/-- The token of an operator or of punctuation, and how many characters it takes after the
    first one. -/
def mark? (c : Char) (cs : List Char) : Option (Token × Nat) :=
  match c, cs with
  | '=', '=' :: _ => some (.operator .equal, 1)
  | '<', '=' :: _ => some (.operator .lessOrEqual, 1)
  | '<', '>' :: _ => some (.operator .notEqual, 1)
  | '>', '=' :: _ => some (.operator .greaterOrEqual, 1)
  | '&', '&' :: _ => some (.operator .and, 1)
  | '|', '|' :: _ => some (.operator .or, 1)
  | '=', _ => some (.assign, 0)
  | '<', _ => some (.operator .lessThan, 0)
  | '>', _ => some (.operator .greaterThan, 0)
  | '+', _ => some (.operator .add, 0)
  | '-', _ => some (.operator .subtract, 0)
  | '*', _ => some (.operator .multiply, 0)
  | '/', _ => some (.operator .divide, 0)
  | '^', _ => some (.operator .power, 0)
  | '(', _ => some (.leftParen, 0)
  | ')', _ => some (.rightParen, 0)
  | _, _ => none

/-- The token that starts with `c` and goes on in `cs`, and how many characters of `cs` it
    takes. -/
def scan (c : Char) (cs : List Char) : Except LexicalFault (Token × Nat) :=
  if c = '"' then
    let body := cs.takeWhile (· != '"')
    if body.length < cs.length then .ok (.text (String.ofList body), body.length + 1)
    else .error .unterminatedText
  else if c = '@' then
    let word := cs.takeWhile Text.continuesName
    if word.isEmpty then .error .missingFunctionName
    else .ok (.function (String.ofList word), word.length)
  else if startsNumeral c cs then
    let spelling := numeralPart c cs
    match Decimal.numeral? spelling with
    | some x => .ok (.number x, spelling.length - 1)
    | none => .error (.badNumeral (String.ofList spelling))
  else if Text.startsName c then
    let word := cs.takeWhile Text.continuesName
    .ok (ofWord (String.ofList (c :: word)), word.length)
  else
    match mark? c cs with
    | some result => .ok result
    | none => .error (.unexpected c)

end Token

namespace LexedLine

/-- The tokens of the rest `cs` of a line, which starts at a column. -/
def readFrom (line column : Nat) (cs : List Char) : Except LexicalError LexedLine :=
  match cs with
  | [] => .ok ⟨[], ⟨line, column⟩⟩
  | c :: rest =>
    if Text.isBlank c then readFrom line (column + 1) rest
    else if c = '!' then .ok ⟨[], ⟨line, column⟩⟩
    else
      match Token.scan c rest with
      | .error fault => .error ⟨fault, ⟨line, column⟩⟩
      | .ok (token, taken) =>
        match readFrom line (column + 1 + taken) (rest.drop taken) with
        | .error e => .error e
        | .ok others => .ok { others with lexemes := ⟨token, ⟨line, column⟩⟩ :: others.lexemes }
termination_by cs.length
decreasing_by
  all_goals simp only [List.length_cons, List.length_drop]
  all_goals omega

/-- The tokens of a source line with a given number. -/
def read (source : List Char) (line : Nat) : Except LexicalError LexedLine :=
  readFrom line 1 source

end LexedLine

end Erl
