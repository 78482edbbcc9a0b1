/-
  Erl.MoistAir.Saturation

  The saturation pressure of water vapor.

  The logarithm of the pressure is a correlation of the absolute temperature; below zero
  degrees it is that over ice, from zero degrees on that over liquid water.
-/

import Erl.MoistAir.Relation

namespace Erl.MoistAir

/-- Saturation pressure over liquid water. -/
def saturationOverWater (t : Float) : Except (Fault Float) Float := do
  let k ← kelvins t
  let logarithm := -5.8002206e3 / k + 1.3914993 - 4.8640239e-2 * k + 4.1764768e-5 * (k * k)
    - 1.4452093e-8 * (k * k * k) + 6.5459673 * k.log
  return logarithm.exp

/-- Saturation pressure over ice. -/
def saturationOverIce (t : Float) : Except (Fault Float) Float := do
  let k ← kelvins t
  let square := k * k
  let logarithm := -5.6745359e3 / k + 6.3925247 - 9.677843e-3 * k + 6.2215701e-7 * square
    + 2.0747825e-9 * (square * k) - 9.484024e-13 * (square * square) + 4.1635019 * k.log
  return logarithm.exp

/-- Saturation pressure at a temperature. -/
def saturationPressure (t : Float) : Except (Fault Float) Float :=
  if t < 0.0 then saturationOverIce t else saturationOverWater t

end Erl.MoistAir
