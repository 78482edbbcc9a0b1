/-
  Erl.Toml.Word

  Numbers and truth values.

  Digits may be grouped by single underscores between them.  A decimal number has no leading
  zeros; a whole number has 64 bits with its sign, and may be written to the base 16, 8 or 2
  without one.  A number with a fraction or an exponent is a float; too large a one is refused.
-/

import Erl.Decimal.Numeral
import Erl.Toml.Basic

namespace Erl.Toml

/-- The digits of a run without the underscores between them. -/
def ungroup? (isDigit : Char → Bool) : List Char → Option (List Char)
  | [] => none
  | [c] => if isDigit c then some [c] else none
  | c :: '_' :: cs => if isDigit c then (ungroup? isDigit cs).map (c :: ·) else none
  | c :: cs => if isDigit c then (ungroup? isDigit cs).map (c :: ·) else none

/-- Splits off a sign; the flag says that it is a minus. -/
def signed : List Char → Bool × List Char
  | '-' :: cs => (true, cs)
  | '+' :: cs => (false, cs)
  | cs => (false, cs)

/-- The digits of a whole decimal number, which has no leading zeros. -/
def wholeDigits? (cs : List Char) : Option (List Char) :=
  match ungroup? Char.isDigit cs with
  | some ['0'] => some ['0']
  | some ('0' :: _) => none
  | digits => digits

/-- The value of digits to a base. -/
def ofBase (base : Nat) (digits : List Char) : Nat :=
  digits.foldl
    (fun n c =>
      base * n + (if c.isDigit then c.toNat - '0'.toNat else c.toLower.toNat - 'a'.toNat + 10))
    0

/-- A whole number of 64 bits. -/
def bounded? (n : Int) : Option Value :=
  if -(Int.pow 2 63) ≤ n ∧ n < Int.pow 2 63 then some (.integer n) else none

/-- A hexadecimal digit. -/
def isHexDigit (c : Char) : Bool :=
  c.isDigit || ('a' ≤ c && c ≤ 'f') || ('A' ≤ c && c ≤ 'F')

/-- A whole number. -/
def integer? (cs : List Char) : Option Value :=
  let toBase (base : Nat) (isDigit : Char → Bool) (cs : List Char) : Option Value :=
    (ungroup? isDigit cs).bind fun digits => bounded? (ofBase base digits)
  match cs with
  | '0' :: 'x' :: cs => toBase 16 isHexDigit cs
  | '0' :: 'o' :: cs => toBase 8 (fun c => '0' ≤ c && c ≤ '7') cs
  | '0' :: 'b' :: cs => toBase 2 (fun c => c == '0' || c == '1') cs
  | cs =>
    let (negative, cs) := signed cs
    (wholeDigits? cs).bind fun digits =>
      let n := ofBase 10 digits
      bounded? (if negative then -(n : Int) else n)

/-- Whether a text is an exponent, or nothing. -/
def isExponent : List Char → Bool
  | [] => true
  | e :: cs => (e == 'e' || e == 'E') && (ungroup? Char.isDigit (signed cs).2).isSome

/-- Whether a text is a decimal number with a fraction or an exponent, without a sign. -/
def isFractional (cs : List Char) : Bool :=
  let inRun (c : Char) : Bool := c.isDigit || c == '_'
  (wholeDigits? (cs.takeWhile inRun)).isSome
    && match cs.dropWhile inRun with
      | [] => false
      | '.' :: rest =>
        (ungroup? Char.isDigit (rest.takeWhile inRun)).isSome
          && isExponent (rest.dropWhile inRun)
      | rest => isExponent rest

/-- A float. -/
def float? (cs : List Char) : Option Value :=
  let (negative, body) := signed cs
  let magnitude? := match String.ofList body with
    | "inf" => some (1.0 / 0.0)
    | "nan" => some (0.0 / 0.0)
    | _ =>
      if isFractional body then
        (Decimal.numeral? (body.filter (· != '_'))).filter fun x => negative || x.isFinite
      else none
  magnitude?.map fun x => .float (if negative then -x else x)

/-- A truth value or number that makes up a whole word. -/
def word? (cs : List Char) : Option Value :=
  match String.ofList cs with
  | "true" => some (.boolean true)
  | "false" => some (.boolean false)
  | _ => (integer? cs).orElse fun _ => float? cs

end Erl.Toml
