/-
  Erl.MoistAir.Relation

  Relations between the properties of moist air.

  Temperatures are in degrees Celsius, pressures in pascals, enthalpies in joules per kilogram
  of dry air and densities in kilograms per cubic metre.  Humidity ratios are kilograms of
  water per kilogram of dry air, and air is never drier than a smallest ratio.  Relations that
  involve saturated air take the saturation pressure as a function of temperature.
-/

import Erl.Bisection

namespace Erl.MoistAir

/-- Why a property is not defined. -/
inductive Fault (α : Type) where
  | pressure (p : α)
  | belowAbsoluteZero (t : α)
  /-- Vapor alone would reach the barometric pressure. -/
  | saturated (vapor barometric : α)
  deriving Repr, DecidableEq

variable {α : Type} [Scalar α]

/-! ## Constants -/

/-- Zero degrees Celsius in kelvins. -/
def zeroCelsius : α := 273.15

/-- Molecular mass of water over that of dry air. -/
def massRatio : α := 0.62198

/-- Gas constant of dry air. -/
def dryGasConstant : α := 287.0

/-- Gas constant of water vapor. -/
def vaporGasConstant : α := 461.52

/-- The smallest humidity ratio. -/
def leastRatio : α := 1.0e-5

/-- Heat capacity of dry air. -/
def dryHeat : α := 1.00484e3

/-- Heat capacity of water vapor. -/
def vaporHeat : α := 1.85895e3

/-- Heat of vaporization at zero degrees. -/
def vaporization : α := 2.50094e6

/-- A humidity ratio that is not below the smallest one. -/
def floorRatio (w : α) : α :=
  Scalar.max w leastRatio

/-! ## Domains -/

/-- A pressure, if it is positive. -/
def positive (p : α) : Except (Fault α) Unit :=
  if 0.0 < p then .ok () else .error (.pressure p)

/-- A temperature in kelvins, if it is above absolute zero. -/
def kelvins (t : α) : Except (Fault α) α :=
  if 0.0 < t + zeroCelsius then .ok (t + zeroCelsius) else .error (.belowAbsoluteZero t)

/-! ## Enthalpy -/

/-- Enthalpy of air at a temperature with a humidity ratio. -/
def enthalpy (t w : α) : α :=
  dryHeat * t + floorRatio w * (vaporization + vaporHeat * t)

/-- Temperature of air with an enthalpy and a humidity ratio. -/
def dryBulb (h w : α) : α :=
  (h - vaporization * floorRatio w) / (dryHeat + vaporHeat * floorRatio w)

/-- Humidity ratio of air with a temperature and an enthalpy. -/
def ratioOfEnthalpy (t h : α) : α :=
  Scalar.max ((h - dryHeat * t) / (vaporization + vaporHeat * t)) leastRatio

/-- Enthalpy of water vapor at a temperature. -/
def vaporEnthalpy (t : α) : α :=
  vaporization + vaporHeat * t

/-- Heat of vaporization at a temperature; constant below zero degrees. -/
def vaporizationHeat (t : α) : α :=
  (vaporization + 1.86e3 * Scalar.max t 0.0) - 4.18e3 * Scalar.max t 0.0

/-- Heat capacity of air with a humidity ratio. -/
def heatCapacity (w : α) : α :=
  dryHeat + floorRatio w * vaporHeat

/-! ## Density -/

/-- Density of air. -/
def density (p t w : α) : Except (Fault α) α := do
  positive p
  let k ← kelvins t
  return p / (dryGasConstant * k * (1.0 + 1.6077687 * floorRatio w))

/-- Volume of a kilogram of dry air and its water. -/
def volume (t w p : α) : Except (Fault α) α := do
  let rho ← density p t w
  return 1.0 / rho

/-- Density of water vapor in air with a humidity ratio, which may be below the smallest
    one. -/
def vaporDensityOfRatio (t w p : α) : Except (Fault α) α := do
  positive p
  let k ← kelvins t
  return w * p / (vaporGasConstant * k * (w + massRatio))

/-- Density of liquid water. -/
def waterDensity (t : α) : α :=
  let offset := t - 3.9863
  1000.0 * (1.0 - (t + 288.9414) / (508929.2 * (t + 68.12963)) * (offset * offset))

/-! ## Relations that involve saturated air -/

/-- The saturation pressure at a temperature. -/
abbrev Saturation (α : Type) := α → Except (Fault α) α

/-- Pressure of the water vapor in air with a humidity ratio. -/
def vaporPressure (p w : α) : α :=
  p * floorRatio w / (massRatio + floorRatio w)

/-- Humidity ratio of air with a relative humidity. -/
def ratioOfHumidity (saturation : Saturation α) (t rh p : α) : Except (Fault α) α := do
  positive p
  let psat ← saturation t
  let vapor := Scalar.clamp rh 0.0 1.0 * psat
  if p ≤ vapor then throw (.saturated vapor p)
  return Scalar.max (vapor * massRatio / (p - vapor)) leastRatio

/-- Humidity ratio of air with a wet-bulb temperature. -/
def ratioOfWetBulb (saturation : Saturation α) (t wet p : α) : Except (Fault α) α := do
  let ws ← ratioOfHumidity saturation wet 1.0 p
  let w :=
    if 0.0 ≤ wet then
      ((2501.0 - 2.326 * wet) * ws - 1.006 * (t - wet)) / (2501.0 + 1.86 * t - 4.186 * wet)
    else ((2830.0 - 0.24 * wet) * ws - 1.006 * (t - wet)) / (2830.0 + 1.86 * t - 2.1 * wet)
  return Scalar.max w leastRatio

/-- Relative humidity of air with a humidity ratio. -/
def humidityOfRatio (saturation : Saturation α) (t w p : α) : Except (Fault α) α := do
  positive p
  let psat ← saturation t
  return Scalar.clamp (vaporPressure p w / psat) 0.0 1.0

/-- Density of water vapor in air with a relative humidity. -/
def vaporDensityOfHumidity (saturation : Saturation α) (t rh : α) : Except (Fault α) α := do
  let psat ← saturation t
  let k ← kelvins t
  return rh * psat / (vaporGasConstant * k)

/-- Relative humidity of air with a density of water vapor. -/
def humidityOfVaporDensity (saturation : Saturation α) (t rho : α) : Except (Fault α) α := do
  let k ← kelvins t
  let psat ← saturation t
  return Scalar.clamp (rho * vaporGasConstant * k / psat) 0.0 1.0

/-- The temperature at which water vapor of a pressure is saturated. -/
def saturationTemperature (saturation : Saturation α) (p : α) : Except (Fault α) α := do
  positive p
  Bisection.solve saturation (-100.0) 200.0 p

/-- Dew point of air with a humidity ratio. -/
def dewPoint (saturation : Saturation α) (w p : α) : Except (Fault α) α := do
  positive p
  saturationTemperature saturation (vaporPressure p w)

/-- Wet-bulb temperature of air with a humidity ratio. -/
def wetBulb (saturation : Saturation α) (t w p : α) : Except (Fault α) α := do
  positive p
  let boiling ← saturationTemperature saturation p
  Bisection.solve (fun wet => ratioOfWetBulb saturation t wet p) (-100.0)
    (Scalar.min t (boiling - 0.01)) w

/-- Temperature of saturated air with an enthalpy. -/
def saturationOfEnthalpy (saturation : Saturation α) (h p : α) : Except (Fault α) α := do
  positive p
  let boiling ← saturationTemperature saturation p
  Bisection.solve
    (fun t => do
      let w ← ratioOfHumidity saturation t 1.0 p
      return enthalpy t w)
    (-100.0) (boiling - 0.01) h

end Erl.MoistAir
