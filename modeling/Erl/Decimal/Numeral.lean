/-
  Erl.Decimal.Numeral

  Reading numbers.

  A numeral is a run of digits with at most one point in or beside it, at least one digit,
  and an optional exponent.  It denotes the float nearest to its exact decimal value, of two
  equally near ones the one with the even mantissa; numerals too large for a float denote
  infinity.
-/

import Erl.Decimal.Text

namespace Erl.Decimal

open Erl.Number (kind)

/-- The natural number that a run of decimal digits spells. -/
def ofDigits (cs : List Char) : Nat :=
  cs.foldl (fun n c => 10 * n + (c.toNat - '0'.toNat)) 0

/-- The float nearest to `digits * 10 ^ exponent`.  Numbers beyond the range of floats are
    recognised by their leading digit, so that no large power is computed for them. -/
def Scaled.toFloat (d : Scaled) : Float :=
  let top := (digitCount d.digits : Int) + d.exponent
  if d.digits = 0 then 0.0
  else if 310 < top then 1.0 / 0.0
  else if top < -330 then 0.0
  else Float.ofScientific d.digits (decide (d.exponent < 0)) d.exponent.natAbs

/-- The exponent part of a numeral: nothing, or `e`, a sign and digits. -/
def exponent? : List Char → Option Int
  | [] => some 0
  | e :: cs =>
    if e ≠ 'e' ∧ e ≠ 'E' then none
    else
      let (negative, digits) := match cs with
        | '-' :: ds => (true, ds)
        | '+' :: ds => (false, ds)
        | ds => (false, ds)
      if digits.isEmpty || !digits.all Char.isDigit then none
      else if negative then some (-(ofDigits digits : Int)) else some (ofDigits digits)

/-- The exact value of a numeral without a sign. -/
def decimal? (cs : List Char) : Option Scaled :=
  let whole := cs.takeWhile Char.isDigit
  let (fraction, rest) := match cs.dropWhile Char.isDigit with
    | '.' :: ds => (ds.takeWhile Char.isDigit, ds.dropWhile Char.isDigit)
    | ds => ([], ds)
  if whole.isEmpty && fraction.isEmpty then none
  else (exponent? rest).map fun e => ⟨ofDigits (whole ++ fraction), e - fraction.length⟩

/-- The float that a numeral without a sign denotes. -/
def numeral? (cs : List Char) : Option Float :=
  (decimal? cs).map Scaled.toFloat

/-- The float that a text denotes: a numeral, `inf`, `infinity` or `nan` in any letter
    case, with an optional sign. -/
def float? (s : String) : Option Float :=
  let (negative, body) := match s.toList with
    | '-' :: cs => (true, cs)
    | '+' :: cs => (false, cs)
    | cs => (false, cs)
  let magnitude? := match String.ofList (body.map Char.toLower) with
    | "inf" | "infinity" => some (1.0 / 0.0)
    | "nan" => some (0.0 / 0.0)
    | _ => numeral? body
  magnitude?.map fun x => if negative then -x else x

/-- A float rounded to a number of significant digits, a half to the even digit. -/
def toSignificant (count : Nat) (x : Float) : Float :=
  match kind x with
  | .finite b =>
    if b.mantissa = 0 then x
    else
      let magnitude := (significant count b).toFloat
      if b.negative then -magnitude else magnitude
  | _ => x

end Erl.Decimal
