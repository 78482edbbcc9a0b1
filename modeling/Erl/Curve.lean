/-
  Erl.Curve

  Performance curves and tables of them.

  A curve is a polynomial in one or two inputs, which are cut to optional limits before it is
  evaluated; the result is cut as well.  A table numbers its curves from one on; their names
  differ in more than letter case, and each has the coefficients that its form needs.  A host may
  bring curves of its own, about which nothing is known.
-/

import Erl.Catalog
import Erl.Routine.Refusal
import Erl.Text.Fold

namespace Erl

/-- The form of a polynomial. -/
inductive CurveShape where
  | linear
  | quadratic
  | cubic
  | biquadratic
  deriving Repr, DecidableEq

/-- The number of coefficients. -/
def CurveShape.coefficientsNeeded : CurveShape → Nat
  | linear => 2
  | quadratic => 3
  | cubic => 4
  | biquadratic => 6

/-- The number of inputs. -/
def CurveShape.inputsNeeded : CurveShape → Nat
  | biquadratic => 2
  | _ => 1

/-- An interval that may be open on either side. -/
structure Limits where
  least : Option Float
  greatest : Option Float
  deriving Repr, DecidableEq

/-- Cuts a number to limits, the upper one last. -/
def Limits.cut (l : Limits) (x : Float) : Float :=
  let raised := match l.least with
    | some least => Scalar.max x least
    | none => x
  match l.greatest with
  | some greatest => Scalar.min raised greatest
  | none => raised

/-- A named curve. -/
structure Curve where
  name : String
  form : CurveShape
  coefficients : List Float
  x : Limits
  y : Limits
  output : Limits
  deriving Repr, DecidableEq

namespace Curve

/-- The polynomial of a form; there is one only for the right number of coefficients and
    inputs. -/
def polynomial? (form : CurveShape) (coefficients inputs : List Float) : Option Float :=
  match form, coefficients, inputs with
  | .linear, [a, b], [x] => some (a + b * x)
  | .quadratic, [a, b, c], [x] => some (a + x * (b + x * c))
  | .cubic, [a, b, c, d], [x] => some (a + x * (b + x * (c + x * d)))
  | .biquadratic, [a, b, c, d, e, f], [x, y] =>
    some (a + b * x + c * x * x + d * y + e * y * y + f * x * y)
  | _, _, _ => none

/-- The inputs of a curve cut to its limits. -/
def cutInputs (c : Curve) : List Float → List Float
  | [] => []
  | [x] => [c.x.cut x]
  | x :: y :: rest => c.x.cut x :: c.y.cut y :: rest

/-- The value of a curve. -/
def evaluate (c : Curve) (inputs : List Float) : Except Refusal Float :=
  if inputs.length ≠ c.form.inputsNeeded then
    .error (.inputsNeeded c.name c.form.inputsNeeded inputs.length)
  else
    match polynomial? c.form c.coefficients (c.cutInputs inputs) with
    | some x => finite c.name (c.output.cut x)
    | none =>
      .error (.coefficientsNeeded c.name c.form.coefficientsNeeded c.coefficients.length)

end Curve

/-- The curves of a library, and their numbers by name. -/
structure Curves where
  curves : Array Curve
  numbers : Index String
  deriving Repr, DecidableEq

namespace Curves

/-- No curves. -/
def empty : Curves := ⟨#[], .empty⟩

/-- The number of curves. -/
def size (l : Curves) : Nat :=
  l.curves.size

/-- The number of the curve with a name, in any letter case. -/
def index? (l : Curves) (name : String) : Option Nat :=
  l.numbers.get? (Text.fold name)

/-- Adds a curve and tells its number, which is the new size, or tells why the curve is refused. -/
def register (l : Curves) (c : Curve) : Except Refusal Nat × Curves :=
  if (l.index? c.name).isSome then (.error (.duplicateCurve c.name), l)
  else if c.coefficients.length ≠ c.form.coefficientsNeeded then
    (.error (.coefficientsNeeded c.name c.form.coefficientsNeeded c.coefficients.length), l)
  else
    let curves := l.curves.push c
    (.ok curves.size, ⟨curves, l.numbers.insert (Text.fold c.name) curves.size⟩)

/-- Adds a curve. -/
def add (l : Curves) (c : Curve) : Except Refusal Curves :=
  match l.register c with
  | (.ok _, grown) => .ok grown
  | (.error e, _) => .error e

/-- The table of a list of curves. -/
def ofList (curves : List Curve) : Except Refusal Curves :=
  curves.foldlM add empty

/-- The curve with a number. -/
def get? (l : Curves) (index : Nat) : Option Curve :=
  if index = 0 then none else l.curves[index - 1]?

/-- The value of the curve with a number. -/
def value (l : Curves) (index : Nat) (inputs : List Float) : Except Refusal Float :=
  match l.get? index with
  | some c => c.evaluate inputs
  | none => .error (.noCurve index)

end Curves

/-- What a host computes curves with: the value of the curve with a number for some inputs, and the
    number of the curve with a name. -/
structure CurveEvaluator where
  value : Nat → List Float → Except Refusal Float
  index? : String → Option Nat

/-- The curves of a library for a host that has no others. -/
def Curves.evaluator (l : Curves) : CurveEvaluator :=
  ⟨l.value, l.index?⟩

end Erl
