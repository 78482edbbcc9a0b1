/-
  Erl.Decimal.Text

  How numbers are written.

  A number is written with the fewest digits that read back, always in positional notation:
  no exponent, no point after an integer, a zero before a leading point.  A negative zero
  keeps its sign.  Two other texts round the exact value instead, a half to the even
  neighbour: a fixed number of places, and a number of significant digits.
-/

import Erl.Decimal.Shortest

namespace Erl.Decimal

open Erl.Number (Binary kind)

/-- A run of zeros. -/
def zeros (n : Nat) : String :=
  String.ofList (List.replicate n '0')

/-- Positional notation of `digits * 10 ^ exponent`. -/
def Scaled.text (d : Scaled) : String :=
  let digits := Nat.toDigits 10 d.digits
  let point : Int := digits.length + d.exponent
  if 0 ≤ d.exponent then String.ofList digits ++ zeros d.exponent.toNat
  else if point ≤ 0 then "0." ++ zeros (-point).toNat ++ String.ofList digits
  else
    String.ofList (digits.take point.toNat) ++ "." ++ String.ofList (digits.drop point.toNat)

/-- A text with a minus sign before it if the number is negative. -/
def signed (negative : Bool) (magnitude : String) : String :=
  if negative then "-" ++ magnitude else magnitude

/-- The text of a number. -/
def text (x : Float) : String :=
  match kind x with
  | .notANumber => "NaN"
  | .infinite negative => signed negative "inf"
  | .finite b =>
    signed b.negative (if b.mantissa = 0 then "0" else (shortest b).text)

/-- `num / den` rounded to an integer, a half to the even one. -/
def divideHalfEven (num den : Nat) : Nat :=
  let quotient := num / den
  let twice := 2 * (num % den)
  if twice < den then quotient
  else if den < twice then quotient + 1
  else quotient + quotient % 2

/-- The multiple of `10 ^ exponent` nearest to the magnitude of a float. -/
def nearestOnGrid (b : Binary) (exponent : Int) : Nat :=
  divideHalfEven (b.mantissa * Nat.pow 2 b.exponent.toNat * Nat.pow 10 (-exponent).toNat)
    (Nat.pow 2 (-b.exponent).toNat * Nat.pow 10 exponent.toNat)

/-- The text of a number with one place after the point. -/
def textOnePlace (x : Float) : String :=
  match kind x with
  | .notANumber => "NaN"
  | .infinite negative => signed negative "inf"
  | .finite b =>
    let tenths := nearestOnGrid b (-1)
    signed b.negative (Nat.repr (tenths / 10) ++ "." ++ Nat.repr (tenths % 10))

/-- The decimal with `count` significant digits nearest to the magnitude of a float other
    than zero. -/
def significant (count : Nat) (b : Binary) : Scaled :=
  let top := leadingPower (b.mantissa * Nat.pow 2 b.exponent.toNat) (Nat.pow 2 (-b.exponent).toNat)
  let exponent := top - (count : Int) + 1
  ⟨nearestOnGrid b exponent, exponent⟩

end Erl.Decimal
