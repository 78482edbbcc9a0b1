/-
  Erl.Number.Integral

  Floats and integers: rounding, remainders and conversions.

  Rounding goes to the nearest integer and sends a half away from zero; the sign of a
  zero is kept.  A remainder takes the sign of the dividend and is exact.  A conversion to
  an integer range drops the fraction and stops at the ends of the range; a value that is
  not a number converts to zero.
-/

import Erl.Number.Binary

namespace Erl.Number

/-- The float of a natural number with a sign, which a zero keeps. -/
def ofSigned (negative : Bool) (n : Nat) : Float :=
  if negative then -(Float.ofNat n) else Float.ofNat n

/-- The nearest integer, a half away from zero. -/
def round (x : Float) : Float :=
  match kind x with
  | .finite b => if 0 ≤ b.exponent then x else ofSigned b.negative b.rounded
  | _ => x

/-- Whether a float is an integer; no infinity is. -/
def isWhole (x : Float) : Bool :=
  match kind x with
  | .finite b => b.isWhole
  | _ => false

/-- The remainder of dividing magnitudes, over the smaller of the two powers of two. -/
def Binary.remainder (a b : Binary) : Binary :=
  let exponent := min a.exponent b.exponent
  let dividend := a.mantissa * Nat.pow 2 (a.exponent - exponent).toNat
  let divisor := b.mantissa * Nat.pow 2 (b.exponent - exponent).toNat
  ⟨a.negative, dividend % divisor, exponent⟩

/-- The remainder of `a` by `b`, with the sign of `a`.  There is none for an infinite
    dividend or a zero divisor; an infinite divisor leaves the dividend. -/
def remainder (a b : Float) : Float :=
  match kind a, kind b with
  | .finite x, .finite y =>
    if y.mantissa = 0 then 0.0 / 0.0 else (x.remainder y).toFloat
  | .finite _, .infinite _ => a
  | _, _ => 0.0 / 0.0

/-- The integer within `[low, high]` that is nearest to the float without its fraction. -/
def saturate (low high : Int) (x : Float) : Int :=
  match kind x with
  | .notANumber => 0
  | .infinite negative => if negative then low else high
  | .finite b => max low (min high (if b.negative then -(b.whole : Int) else b.whole))

/-- Conversion to a signed integer of 32 bits. -/
def toInt32 (x : Float) : Int :=
  saturate (-Int.pow 2 31) (Int.pow 2 31 - 1) x

/-- Conversion to an unsigned integer of 64 bits. -/
def toCount (x : Float) : Nat :=
  (saturate 0 (Int.pow 2 64 - 1) x).toNat

end Erl.Number
