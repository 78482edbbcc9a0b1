/-
  Erl.Number.Binary

  The value of a float as sign, mantissa and power of two.

  Every finite float is `±mantissa * 2 ^ exponent` with a mantissa below `2 ^ 53` and an
  exponent of at least `-1074`.  Rounding, remainders and decimal texts are exact
  computations on these three parts.
-/

namespace Erl.Number

/-- The number `±mantissa * 2 ^ exponent`. -/
structure Binary where
  negative : Bool
  mantissa : Nat
  exponent : Int
  deriving Repr, DecidableEq

/-- What a float stands for. -/
inductive Kind where
  | notANumber
  | infinite (negative : Bool)
  | finite (value : Binary)
  deriving Repr, DecidableEq

/-- Reads the parts of a float off its bits. -/
def kind (x : Float) : Kind :=
  let bits : Nat := x.toBits.toNat
  let negative := decide (Nat.pow 2 63 ≤ bits)
  let field : Nat := bits / Nat.pow 2 52 % Nat.pow 2 11
  let fraction : Nat := bits % Nat.pow 2 52
  if field = 2047 then
    if fraction = 0 then .infinite negative else .notANumber
  else if field = 0 then .finite ⟨negative, fraction, -1074⟩
  else .finite ⟨negative, fraction + Nat.pow 2 52, (field : Int) - 1075⟩

namespace Binary

/-- `m * 2 ^ shift`, with the bits below the unit dropped. -/
def scale (m : Nat) (shift : Int) : Nat :=
  if 0 ≤ shift then m * Nat.pow 2 shift.toNat else m / Nat.pow 2 (-shift).toNat

/-- The magnitude without its fraction. -/
def whole (b : Binary) : Nat :=
  scale b.mantissa b.exponent

/-- The magnitude rounded to the nearest integer, a half upwards. -/
def rounded (b : Binary) : Nat :=
  if 0 ≤ b.exponent then b.whole
  else (b.mantissa + Nat.pow 2 (-b.exponent - 1).toNat) / Nat.pow 2 (-b.exponent).toNat

/-- Whether the number is an integer. -/
def isWhole (b : Binary) : Bool :=
  0 ≤ b.exponent || b.mantissa % Nat.pow 2 (-b.exponent).toNat == 0

/-- The bits, without the sign, of the float `m * 2 ^ exponent`. -/
def packed (m : Nat) (exponent : Int) : Nat :=
  let top : Int := (Nat.log2 m : Int) + exponent
  if m = 0 then 0
  else if top < -1022 then scale m (exponent + 1074)
  else if 1023 < top then 2047 * Nat.pow 2 52
  else (top + 1022).toNat * Nat.pow 2 52 + scale m (52 - (Nat.log2 m : Int))

/-- The float of a number that fits one: at most 53 significant bits, none of them below
    `2 ^ (-1074)`. -/
def toFloat (b : Binary) : Float :=
  let magnitude := packed b.mantissa b.exponent
  Float.ofBits (UInt64.ofNat (if b.negative then magnitude + Nat.pow 2 63 else magnitude))

end Binary

end Erl.Number
