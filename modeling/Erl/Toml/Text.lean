/-
  Erl.Toml.Text

  Quoted texts.

  A text in double quotes has escapes, one in single quotes has none.  Three quotes open a
  text over several lines; a line end right after them is dropped, and up to two quotes may
  stand inside it or right before the three that close it.  Every line end inside is one line
  feed.
-/

import Erl.Toml.Reading

namespace Erl.Toml

/-! ## Escapes -/

/-- The value of a hexadecimal digit. -/
def hexDigit? (c : Char) : Option Nat :=
  if c.isDigit then some (c.toNat - '0'.toNat)
  else if 'a' ≤ c ∧ c ≤ 'f' then some (c.toNat - 'a'.toNat + 10)
  else if 'A' ≤ c ∧ c ≤ 'F' then some (c.toNat - 'A'.toNat + 10)
  else none

/-- The character whose code is written with a number of hexadecimal digits. -/
def codePoint? (width : Nat) (cs : List Char) : Option (Char × List Char) := do
  let digits ← (cs.take width).mapM hexDigit?
  let code := digits.foldl (fun n d => 16 * n + d) 0
  if digits.length = width ∧ code.isValidChar then some (Char.ofNat code, cs.drop width)
  else none

/-- The character that an escape stands for; the backslash is already read. -/
def escape? : List Char → Option (Char × List Char)
  | 'b' :: cs => some ('\x08', cs)
  | 't' :: cs => some ('\t', cs)
  | 'n' :: cs => some ('\n', cs)
  | 'f' :: cs => some ('\x0c', cs)
  | 'r' :: cs => some ('\r', cs)
  | '"' :: cs => some ('"', cs)
  | '\\' :: cs => some ('\\', cs)
  | 'u' :: cs => codePoint? 4 cs
  | 'U' :: cs => codePoint? 8 cs
  | _ => none

/-- The text after a line that ends with a backslash: the blanks and line ends that follow are
    dropped. -/
def joinLine? (cs : List Char) : Option (List Char) :=
  (afterBreak? (skipBlanks cs)).map skipBreaks

/-! ## Texts -/

/-- The quotes that belong to a text and the rest after it, where three quotes close it. -/
def closing? (quote : Char) (cs : List Char) : Option (List Char × List Char) :=
  if cs.take 3 = [quote, quote, quote] then
    let own := ((cs.drop 3).takeWhile (· == quote)).take 2
    some (own, cs.drop (3 + own.length))
  else none

/-- A text in double quotes on one line, after the opening quote. -/
def shortBasic? (cs : List Char) : Option (List Char × List Char) :=
  match cs with
  | [] => none
  | '"' :: rest => some ([], rest)
  | '\\' :: rest => do
    let r ← Reading.ofPair? (rest.length + 1) (← escape? rest)
    let (text, rest) ← shortBasic? r.rest
    return (r.value :: text, rest)
  | c :: rest =>
    if isPlain c then (shortBasic? rest).map fun (text, rest) => (c :: text, rest) else none
termination_by cs.length
decreasing_by
  · exact r.shorter
  · exact Nat.lt_succ_self _

/-- A text in double quotes over several lines, after the opening quotes. -/
def longBasic? (cs : List Char) : Option (List Char × List Char) :=
  match closing? '"' cs with
  | some result => some result
  | none =>
    match cs with
    | [] => none
    | '\\' :: rest =>
      match joinLine? rest with
      | some after => do
        let r ← Reading.ofPair? (rest.length + 1) ((), after)
        longBasic? r.rest
      | none => do
        let r ← Reading.ofPair? (rest.length + 1) (← escape? rest)
        let (text, rest) ← longBasic? r.rest
        return (r.value :: text, rest)
    | '\r' :: '\n' :: rest => (longBasic? rest).map fun (text, rest) => ('\n' :: text, rest)
    | c :: rest =>
      if c == '\n' || isPlain c then
        (longBasic? rest).map fun (text, rest) => (c :: text, rest)
      else none
termination_by cs.length
decreasing_by
  · exact r.shorter
  · exact r.shorter
  · exact Nat.lt_succ_of_lt (Nat.lt_succ_self _)
  · exact Nat.lt_succ_self _

/-- A text in single quotes on one line, after the opening quote. -/
def shortLiteral? (cs : List Char) : Option (List Char × List Char) :=
  let inside (c : Char) : Bool := isPlain c && c != '\''
  match cs.dropWhile inside with
  | '\'' :: rest => some (cs.takeWhile inside, rest)
  | _ => none

/-- A text in single quotes over several lines, after the opening quotes. -/
def longLiteral? (cs : List Char) : Option (List Char × List Char) :=
  match closing? '\'' cs with
  | some result => some result
  | none =>
    match cs with
    | [] => none
    | '\r' :: '\n' :: rest => (longLiteral? rest).map fun (text, rest) => ('\n' :: text, rest)
    | c :: rest =>
      if c == '\n' || isPlain c then
        (longLiteral? rest).map fun (text, rest) => (c :: text, rest)
      else none

/-- Drops a line end. -/
def dropBreak (cs : List Char) : List Char :=
  (afterBreak? cs).getD cs

/-- A text on one line. -/
def shortText? : List Char → Option (List Char × List Char)
  | '"' :: cs => shortBasic? cs
  | '\'' :: cs => shortLiteral? cs
  | _ => none

/-- A text. -/
def text? (cs : List Char) : Option (List Char × List Char) :=
  if cs.take 3 = ['"', '"', '"'] then longBasic? (dropBreak (cs.drop 3))
  else if cs.take 3 = ['\'', '\'', '\''] then longLiteral? (dropBreak (cs.drop 3))
  else shortText? cs

end Erl.Toml
