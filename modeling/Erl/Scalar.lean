/-
  Erl.Scalar

  The arithmetic that statistics and physical relations are written in.

  Trend statistics, moist-air relations and the bisection are written once, over any type
  with this arithmetic.  Programs run them on floats; read over an ordered field they are the
  exact relations that the floats approximate.
-/

namespace Erl

/-- Numbers with the four operations, decimal literals and decidable comparisons. -/
class Scalar (α : Type) extends
    Add α, Sub α, Mul α, Div α, Neg α, LT α, LE α, BEq α, OfScientific α where
  ofNat : Nat → α
  decLt : DecidableLT α
  decLe : DecidableLE α

instance Scalar.instDecidableLT {α : Type} [Scalar α] : DecidableLT α := Scalar.decLt

instance Scalar.instDecidableLE {α : Type} [Scalar α] : DecidableLE α := Scalar.decLe

instance : Scalar Float where
  ofNat := Float.ofNat
  decLt := fun a b => Float.decLt a b
  decLe := fun a b => Float.decLe a b

namespace Scalar

variable {α : Type} [Scalar α]

/-- The greater of two numbers, the first of two equal ones.  An operand that is not a number
    gives way to the other. -/
def max (a b : α) : α :=
  if a < b then b else if a == a then a else b

/-- The smaller of two numbers, the first of two equal ones.  An operand that is not a number
    gives way to the other. -/
def min (a b : α) : α :=
  if b < a then b else if a == a then a else b

/-- The nearest number between two ordered bounds. -/
def clamp (x low high : α) : α :=
  if x < low then low else if high < x then high else x

/-- The sum of a list, from its first element on. -/
def sum (xs : List α) : α :=
  xs.foldl (· + ·) (-(0.0 : α))

end Scalar

end Erl
