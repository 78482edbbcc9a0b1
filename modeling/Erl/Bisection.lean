/-
  Erl.Bisection

  Solving `f x = target` for an increasing `f` on an interval.

  A target at or beyond the value at an end gives that end.  Otherwise the interval is halved
  a fixed number of times, always keeping `f low < target ≤ f high`, and the middle of the
  last interval is the answer.
-/

import Erl.Scalar

namespace Erl.Bisection

variable {α ε : Type} [Scalar α]

/-- The middle of an interval. -/
def middle (low high : α) : α :=
  0.5 * (low + high)

/-- The middle of the interval that is left after a number of halvings. -/
def halve (f : α → Except ε α) (target : α) : Nat → α → α → Except ε α
  | 0, low, high => .ok (middle low high)
  | n + 1, low, high =>
    let mid := middle low high
    match f mid with
    | .error e => .error e
    | .ok y => if y < target then halve f target n mid high else halve f target n low mid

/-- How often the interval is halved. -/
def steps : Nat := 100

/-- Where an increasing function crosses a target on an interval. -/
def solve (f : α → Except ε α) (low high target : α) : Except ε α :=
  match f low with
  | .error e => .error e
  | .ok least =>
    if target ≤ least then .ok low
    else
      match f high with
      | .error e => .error e
      | .ok greatest => if greatest ≤ target then .ok high else halve f target steps low high

end Erl.Bisection
