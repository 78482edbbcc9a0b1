/-
  Erl.Decimal.Shortest

  The fewest decimal digits that read back as the same float.

  The reals that round to a float form an interval around it, whose ends belong to it when
  the mantissa is even.  For one, two, ... seventeen digits the two neighbours of the float
  on that decimal grid are tried; the first grid with a neighbour inside the interval wins,
  of two neighbours the nearer, and of two equally near ones the larger.  All of it is
  exact arithmetic on natural numbers.
-/

import Erl.Number.Binary

namespace Erl.Decimal

open Erl.Number (Binary)

/-- The number `digits * 10 ^ exponent`. -/
structure Scaled where
  digits : Nat
  exponent : Int
  deriving Repr, DecidableEq

/-- How many decimal digits a number has; zero has one. -/
def digitCount (n : Nat) : Nat :=
  (Nat.toDigits 10 n).length

/-- The power of ten of the leading digit of `num / den`, which is not zero. -/
def leadingPower (num den : Nat) : Int :=
  if den ≤ num then (digitCount (num / den) : Int) - 1
  else -(digitCount ((den + num - 1) / num - 1) : Int)

/-- A positive ratio and the interval around it, all over one denominator. -/
structure Interval where
  low : Nat
  center : Nat
  high : Nat
  denominator : Nat
  closed : Bool

/-- The interval of the reals that round to a float's magnitude, in quarters of the last
    place.  Below a power of two the floats are twice as dense. -/
def Interval.ofBinary (b : Binary) : Interval :=
  let below := if b.mantissa = Nat.pow 2 52 ∧ -1074 < b.exponent then 1 else 2
  let unit := Nat.pow 2 (b.exponent - 2).toNat
  { low := (4 * b.mantissa - below) * unit
    center := 4 * b.mantissa * unit
    high := (4 * b.mantissa + 2) * unit
    denominator := Nat.pow 2 (2 - b.exponent).toNat
    closed := b.mantissa % 2 == 0 }

/-- Whether `digits` steps of the grid fall into the interval, whose parts are already
    scaled to the grid. -/
def Interval.holds (i : Interval) (stretch step digits : Nat) : Bool :=
  if i.closed then i.low * stretch ≤ digits * step && digits * step ≤ i.high * stretch
  else i.low * stretch < digits * step && digits * step < i.high * stretch

/-- The neighbour of the center on the grid of multiples of `10 ^ exponent` that lies in
    the interval, if one does. -/
def Interval.onGrid? (i : Interval) (exponent : Int) : Option Scaled :=
  let stretch := Nat.pow 10 (-exponent).toNat
  let step := Nat.pow 10 exponent.toNat * i.denominator
  let center := i.center * stretch
  let digits := center / step
  match i.holds stretch step digits, i.holds stretch step (digits + 1) with
  | true, true =>
    let nearer := if center - digits * step < (digits + 1) * step - center then digits
      else digits + 1
    some ⟨nearer, exponent⟩
  | true, false => some ⟨digits, exponent⟩
  | false, true => some ⟨digits + 1, exponent⟩
  | false, false => none

/-- Moves zeros at the end of the digits into the exponent. -/
def Scaled.normalize (d : Scaled) : Scaled :=
  if d.digits = 0 then d
  else if d.digits % 10 = 0 then Scaled.normalize ⟨d.digits / 10, d.exponent + 1⟩
  else d
termination_by d.digits

/-- The decimal with the fewest digits that reads back as the magnitude of a float other
    than zero. -/
def shortest (b : Binary) : Scaled :=
  let i := Interval.ofBinary b
  let top := leadingPower i.center i.denominator
  let found := (List.range 17).findSome? fun (n : Nat) => i.onGrid? (top - n)
  (found.getD ⟨b.mantissa, b.exponent⟩).normalize

end Erl.Decimal
