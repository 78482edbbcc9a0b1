/-
  Erl.Trend

  The recent history of a variable, and statistics of it.

  A history keeps the newest samples up to its capacity, newest first.  A statistic of the
  window `k` is taken over the newest `k` samples, or over all when there are fewer; an empty
  history or window has none.

  A sample takes eight bytes, and a history is set up with room for all samples that it may
  keep.
-/

import Erl.Scalar
import Erl.Text.Fold
import Erl.Value

namespace Erl

/-- At most `capacity` samples, newest first. -/
structure History (α : Type) where
  capacity : Nat
  samples : List α
  deriving Repr, DecidableEq

namespace History

variable {α : Type}

/-- A history without samples. -/
def empty (capacity : Nat) : History α := ⟨capacity, []⟩

/-- How many samples there can be room for: together they take less than 2^63 bytes. -/
def maxCapacity : Nat := (Nat.pow 2 63 - 1) / 8

/-- A history without samples, if there can be room for its capacity. -/
def ofCapacity? (capacity : Nat) : Option (History α) :=
  if capacity ≤ maxCapacity then some (empty capacity) else none

/-- The number of samples. -/
def size (h : History α) : Nat :=
  h.samples.length

/-- Adds a sample and drops the oldest ones beyond the capacity. -/
def log (h : History α) (sample : α) : History α :=
  { h with samples := (sample :: h.samples).take h.capacity }

/-- The sample of an age; the newest has age one. -/
def sample? (h : History α) (age : Nat) : Option α :=
  if age = 0 then none else h.samples[age - 1]?

/-- The newest `k` samples, unless there are none. -/
def window? (h : History α) (k : Nat) : Option (List α) :=
  if h.samples.isEmpty || k == 0 then none else some (h.samples.take k)

variable [Scalar α]

/-- The newest `n` samples with their times in hours; the newest is at time zero. -/
def points (samples : List α) (n : Nat) (hours : α) : List (α × α) :=
  (samples.take n).mapIdx fun i y => (-(Scalar.ofNat i) * hours, y)

/-- The least-squares slope of `n` points; points at one time have the slope zero. -/
def slope (points : List (α × α)) (n : Nat) : α :=
  let meanT := Scalar.sum (points.map Prod.fst) / Scalar.ofNat n
  let meanY := Scalar.sum (points.map Prod.snd) / Scalar.ofNat n
  let sums := points.foldl
    (fun (sums : α × α) (p : α × α) =>
      let dt := p.1 - meanT
      (sums.1 + dt * (p.2 - meanY), sums.2 + dt * dt))
    (0.0, 0.0)
  if sums.2 == (0.0 : α) then 0.0 else sums.1 / sums.2

/-- The sum of a window. -/
def sum? (h : History α) (k : Nat) : Option α :=
  (h.window? k).map Scalar.sum

/-- The mean of a window: its sum over the number of samples that there are in it. -/
def average? (h : History α) (k : Nat) : Option α :=
  let n := min k h.size
  (h.sum? k).map fun total => total / Scalar.ofNat n

/-- The slope of a window per hour, for samples a number of hours apart; a single sample has the
    slope zero. -/
def direction? (h : History α) (k : Nat) (hours : α) : Option α :=
  let n := min k h.size
  if n = 0 then none
  else if n < 2 then some 0.0
  else some (slope (points h.samples n hours) n)

/-- The greatest sample of a window; samples that are not numbers do not count. -/
def max? (h : History Float) (k : Nat) : Option Float :=
  (h.window? k).map fun samples => samples.foldl Scalar.max (-1.0 / 0.0)

/-- The smallest sample of a window; samples that are not numbers do not count. -/
def min? (h : History Float) (k : Nat) : Option Float :=
  (h.window? k).map fun samples => samples.foldl Scalar.min (1.0 / 0.0)

end History

/-- A named history of a global variable. -/
structure Trend where
  name : String
  source : VariableId
  history : History Float
  deriving Repr, DecidableEq

/-- What trends are told apart by. -/
def Trend.foldedName (t : Trend) : String :=
  Text.fold t.name

end Erl
