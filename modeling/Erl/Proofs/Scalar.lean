/-
  Erl.Proofs.Scalar

  Exact arithmetic.

  Statistics of trends and relations of moist air are written over any arithmetic.  Over the
  rationals nothing is rounded: the greater of two numbers is that of the order, a number between
  two bounds is not cut, and a sum is the same from whichever end it is taken.
-/

import Mathlib.Algebra.BigOperators.Group.List.Basic
import Mathlib.Algebra.Order.Ring.Unbundled.Rat
import Mathlib.Tactic.Linarith
import Mathlib.Tactic.NormNum.OfScientific
import Erl.Scalar

namespace Erl.Scalar

/-- Exact arithmetic. -/
instance instRat : Scalar ℚ where
  ofNat := Nat.cast
  decLt := inferInstance
  decLe := inferInstance

theorem max_eq (a b : ℚ) : Scalar.max a b = Max.max a b := by
  unfold Scalar.max
  rw [if_pos (beq_self_eq_true a)]
  split
  · next hlt => exact (max_eq_right (le_of_lt hlt)).symm
  · next hle => exact (max_eq_left (not_lt.1 hle)).symm

theorem clamp_of_mem {x low high : ℚ} (hlow : low ≤ x) (hhigh : x ≤ high) :
    Scalar.clamp x low high = x := by
  unfold Scalar.clamp
  rw [if_neg (not_lt.2 hlow), if_neg (not_lt.2 hhigh)]

theorem sum_eq (xs : List ℚ) : Scalar.sum xs = xs.sum := by
  have hzero : -(0.0 : ℚ) = 0 := by norm_num
  unfold Scalar.sum
  rw [hzero, ← List.sum_eq_foldl]

end Erl.Scalar
