/-
  Erl.Proofs.MoistAir

  Properties of moist air that determine each other.

  In exact arithmetic a property that was computed from another gives it back: temperature and
  humidity ratio from enthalpy, relative humidity from the humidity ratio and from the density of
  water vapor.  The smallest humidity ratio and the bounds of relative humidity are the only places
  where something is lost.  Saturation pressure can be any positive function of temperature.  Where
  it increases, the temperature that is found from it by bisection is as near as the last bracket.
-/

import Mathlib.Tactic.FieldSimp
import Mathlib.Tactic.Ring
import Erl.MoistAir.Relation
import Erl.Proofs.Bisection
import Erl.Proofs.Scalar

namespace Erl.MoistAir

/-! ## Constants -/

theorem leastRatio_pos : (0 : ℚ) < leastRatio := by
  norm_num [leastRatio]

theorem dryHeat_pos : (0 : ℚ) < dryHeat := by
  norm_num [dryHeat]

theorem vaporHeat_pos : (0 : ℚ) < vaporHeat := by
  norm_num [vaporHeat]

theorem massRatio_pos : (0 : ℚ) < massRatio := by
  norm_num [massRatio]

theorem vaporGasConstant_pos : (0 : ℚ) < vaporGasConstant := by
  norm_num [vaporGasConstant]

/-! ## Domains -/

theorem floorRatio_eq (w : ℚ) : floorRatio w = max w leastRatio :=
  Scalar.max_eq w leastRatio

theorem floorRatio_pos (w : ℚ) : 0 < floorRatio w := by
  rw [floorRatio_eq]
  exact lt_max_of_lt_right leastRatio_pos

theorem floorRatio_of_le {w : ℚ} (h : leastRatio ≤ w) : floorRatio w = w := by
  rw [floorRatio_eq, max_eq_left h]

theorem positive_of_pos {p : ℚ} (h : 0 < p) : positive p = .ok () :=
  if_pos (by norm_num; exact h)

theorem kelvins_of_pos {t : ℚ} (h : 0 < t + zeroCelsius) : kelvins t = .ok (t + zeroCelsius) :=
  if_pos (by norm_num; exact h)

theorem clamp_humidity {rh : ℚ} (hleast : 0 ≤ rh) (hmost : rh ≤ 1) :
    Scalar.clamp rh 0.0 1.0 = rh :=
  Scalar.clamp_of_mem (by norm_num; exact hleast) (by norm_num; exact hmost)

/-! ## Enthalpy -/

/-- Enthalpy gives the temperature back. -/
theorem dryBulb_enthalpy (t w : ℚ) : dryBulb (enthalpy t w) w = t := by
  have hheat : dryHeat + vaporHeat * floorRatio w ≠ 0 :=
    (add_pos dryHeat_pos (mul_pos vaporHeat_pos (floorRatio_pos w))).ne'
  unfold dryBulb enthalpy
  rw [div_eq_iff hheat]
  ring

/-- Enthalpy gives the humidity ratio back, as far as it is not below the smallest one. -/
theorem ratioOfEnthalpy_enthalpy {t : ℚ} (w : ℚ) (h : vaporization + vaporHeat * t ≠ 0) :
    ratioOfEnthalpy t (enthalpy t w) = max w leastRatio := by
  have hratio : (enthalpy t w - dryHeat * t) / (vaporization + vaporHeat * t) = floorRatio w := by
    unfold enthalpy
    rw [div_eq_iff h]
    ring
  unfold ratioOfEnthalpy
  rw [hratio, Scalar.max_eq, floorRatio_eq, max_assoc, max_self]

/-! ## Humidity -/

/-- The ratio of vapor of a pressure gives the pressure back. -/
theorem vaporPressure_ratio {p vapor : ℚ} (hp : 0 < p) (hvapor : vapor < p)
    (hratio : leastRatio ≤ vapor * massRatio / (p - vapor)) :
    vaporPressure p (vapor * massRatio / (p - vapor)) = vapor := by
  have hmass : (massRatio : ℚ) ≠ 0 := massRatio_pos.ne'
  have hdry : p - vapor ≠ 0 := (sub_pos.2 hvapor).ne'
  have hboth : massRatio + vapor * massRatio / (p - vapor) = p * massRatio / (p - vapor) := by
    field_simp
    ring
  unfold vaporPressure
  rw [floorRatio_of_le hratio, hboth]
  field_simp

theorem vaporDensityOfRatio_eq {t p : ℚ} (w : ℚ) (hp : 0 < p) (ht : 0 < t + zeroCelsius) :
    vaporDensityOfRatio t w p
      = .ok (w * p / (vaporGasConstant * (t + zeroCelsius) * (w + massRatio))) := by
  unfold vaporDensityOfRatio
  rw [positive_of_pos hp, kelvins_of_pos ht]
  rfl

section Humidity

variable {saturation : Saturation ℚ} {t psat : ℚ} (hsaturation : saturation t = .ok psat)
include hsaturation

theorem ratioOfHumidity_eq {rh p : ℚ} (hp : 0 < p) (hleast : 0 ≤ rh) (hmost : rh ≤ 1)
    (hvapor : rh * psat < p) :
    ratioOfHumidity saturation t rh p
      = .ok (floorRatio (rh * psat * massRatio / (p - rh * psat))) := by
  unfold ratioOfHumidity
  rw [positive_of_pos hp, hsaturation, clamp_humidity hleast hmost]
  exact if_neg (not_le.2 hvapor)

theorem humidityOfRatio_eq {p : ℚ} (w : ℚ) (hp : 0 < p) :
    humidityOfRatio saturation t w p = .ok (Scalar.clamp (vaporPressure p w / psat) 0.0 1.0) := by
  unfold humidityOfRatio
  rw [positive_of_pos hp, hsaturation]
  rfl

theorem vaporDensityOfHumidity_eq (rh : ℚ) (ht : 0 < t + zeroCelsius) :
    vaporDensityOfHumidity saturation t rh
      = .ok (rh * psat / (vaporGasConstant * (t + zeroCelsius))) := by
  unfold vaporDensityOfHumidity
  rw [hsaturation, kelvins_of_pos ht]
  rfl

theorem humidityOfVaporDensity_eq (rho : ℚ) (ht : 0 < t + zeroCelsius) :
    humidityOfVaporDensity saturation t rho
      = .ok (Scalar.clamp (rho * vaporGasConstant * (t + zeroCelsius) / psat) 0.0 1.0) := by
  unfold humidityOfVaporDensity
  rw [hsaturation, kelvins_of_pos ht]
  rfl

/-! ## Back and forth -/

/-- The humidity ratio gives the relative humidity back. -/
theorem humidityOfRatio_ratioOfHumidity (hpositive : 0 < psat) {rh p : ℚ} (hp : 0 < p)
    (hleast : 0 ≤ rh) (hmost : rh ≤ 1) (hvapor : rh * psat < p)
    (hratio : leastRatio ≤ rh * psat * massRatio / (p - rh * psat)) :
    ∃ w, ratioOfHumidity saturation t rh p = .ok w ∧ humidityOfRatio saturation t w p = .ok rh := by
  refine ⟨_, ratioOfHumidity_eq hsaturation hp hleast hmost hvapor, ?_⟩
  rw [floorRatio_of_le hratio, humidityOfRatio_eq hsaturation _ hp,
    vaporPressure_ratio hp hvapor hratio, mul_div_cancel_right₀ rh hpositive.ne',
    clamp_humidity hleast hmost]

/-- The density of water vapor gives the relative humidity back. -/
theorem humidityOfVaporDensity_vaporDensityOfHumidity (hpositive : 0 < psat) {rh : ℚ}
    (ht : 0 < t + zeroCelsius) (hleast : 0 ≤ rh) (hmost : rh ≤ 1) :
    ∃ rho, vaporDensityOfHumidity saturation t rh = .ok rho
      ∧ humidityOfVaporDensity saturation t rho = .ok rh := by
  have hgas : (vaporGasConstant : ℚ) ≠ 0 := vaporGasConstant_pos.ne'
  have hback : rh * psat / (vaporGasConstant * (t + zeroCelsius)) * vaporGasConstant
      * (t + zeroCelsius) / psat = rh := by
    field_simp
  refine ⟨_, vaporDensityOfHumidity_eq hsaturation rh ht, ?_⟩
  rw [humidityOfVaporDensity_eq hsaturation _ ht, hback, clamp_humidity hleast hmost]

/-- By way of the density of its vapor, air has the relative humidity that it has by its humidity
    ratio. -/
theorem humidityOfVaporDensity_vaporDensityOfRatio {w p : ℚ} (hw : leastRatio ≤ w) (hp : 0 < p)
    (ht : 0 < t + zeroCelsius) :
    ∃ rho rh, vaporDensityOfRatio t w p = .ok rho
      ∧ humidityOfVaporDensity saturation t rho = .ok rh
      ∧ humidityOfRatio saturation t w p = .ok rh := by
  have hgas : (vaporGasConstant : ℚ) ≠ 0 := vaporGasConstant_pos.ne'
  have hmass : w + massRatio ≠ 0 :=
    (add_pos (leastRatio_pos.trans_le hw) massRatio_pos).ne'
  have hpressure : w * p / (vaporGasConstant * (t + zeroCelsius) * (w + massRatio))
      * vaporGasConstant * (t + zeroCelsius) = vaporPressure p w := by
    unfold vaporPressure
    rw [floorRatio_of_le hw, add_comm massRatio w]
    field_simp
  refine ⟨_, _, vaporDensityOfRatio_eq w hp ht, ?_, humidityOfRatio_eq hsaturation w hp⟩
  rw [humidityOfVaporDensity_eq hsaturation _ ht, hpressure]

end Humidity

/-! ## Saturation temperature -/

section Saturation

variable {saturation : Saturation ℚ} (hincreasing : Bisection.Increasing saturation (-100) 200)
  {t psat : ℚ} (hlow : -100 ≤ t) (hhigh : t ≤ 200) (hsaturation : saturation t = .ok psat)
  (hpositive : 0 < psat)
include hincreasing hlow hhigh hsaturation hpositive

/-- Saturation pressure gives the temperature back. -/
theorem saturationTemperature_saturation :
    ∃ t', saturationTemperature saturation psat = .ok t' ∧ |t - t'| ≤ 300 / 2 ^ 101 := by
  obtain ⟨t', hsolve, hnear⟩ := Bisection.solve_inverts hincreasing hlow hhigh hsaturation
  have hlowest : (-100.0 : ℚ) = -100 := by norm_num
  have hhighest : (200.0 : ℚ) = 200 := by norm_num
  have hwidth : (200 - -100 : ℚ) = 300 := by norm_num
  rw [hwidth] at hnear
  refine ⟨t', ?_, hnear⟩
  unfold saturationTemperature
  rw [positive_of_pos hpositive, hlowest, hhighest]
  exact hsolve

/-- The dew point of saturated air is its temperature. -/
theorem dewPoint_saturated {p : ℚ} (hp : psat < p)
    (hratio : leastRatio ≤ psat * massRatio / (p - psat)) :
    ∃ w t', ratioOfHumidity saturation t 1 p = .ok w ∧ dewPoint saturation w p = .ok t'
      ∧ |t - t'| ≤ 300 / 2 ^ 101 := by
  obtain ⟨t', htemperature, hnear⟩ :=
    saturationTemperature_saturation hincreasing hlow hhigh hsaturation hpositive
  have hpressure : 0 < p := hpositive.trans hp
  refine ⟨_, t', ratioOfHumidity_eq hsaturation hpressure zero_le_one le_rfl ?_, ?_, hnear⟩
  · rw [one_mul]
    exact hp
  · unfold dewPoint
    rw [one_mul, floorRatio_of_le hratio, positive_of_pos hpressure,
      vaporPressure_ratio hpressure hp hratio]
    exact htemperature

end Saturation

/-! ## All of them -/

/-- Properties of moist air that were computed from one another give each other back, for any
    saturation pressure that is positive where it is defined.  Enthalpy gives the temperature back,
    and the humidity ratio unless vapor has no enthalpy.  The humidity ratio gives the relative
    humidity back as long as vapor does not reach the barometric pressure and air is not drier than
    the smallest ratio.  Above absolute zero the density of vapor gives the relative humidity back,
    and it leads to the same relative humidity as the humidity ratio does. -/
theorem properties_recovered (saturation : Saturation ℚ) :
    (∀ t w : ℚ, dryBulb (enthalpy t w) w = t)
      ∧ (∀ t w : ℚ, vaporization + vaporHeat * t ≠ 0 →
          ratioOfEnthalpy t (enthalpy t w) = max w leastRatio)
      ∧ (∀ t psat rh p : ℚ, saturation t = .ok psat → 0 < psat → 0 < p → 0 ≤ rh → rh ≤ 1 →
          rh * psat < p → leastRatio ≤ rh * psat * massRatio / (p - rh * psat) →
          ∃ w, ratioOfHumidity saturation t rh p = .ok w
            ∧ humidityOfRatio saturation t w p = .ok rh)
      ∧ (∀ t psat rh : ℚ, saturation t = .ok psat → 0 < psat → 0 < t + zeroCelsius →
          0 ≤ rh → rh ≤ 1 →
          ∃ rho, vaporDensityOfHumidity saturation t rh = .ok rho
            ∧ humidityOfVaporDensity saturation t rho = .ok rh)
      ∧ ∀ t psat w p : ℚ, saturation t = .ok psat → leastRatio ≤ w → 0 < p →
          0 < t + zeroCelsius →
          ∃ rho rh, vaporDensityOfRatio t w p = .ok rho
            ∧ humidityOfVaporDensity saturation t rho = .ok rh
            ∧ humidityOfRatio saturation t w p = .ok rh := by
  refine ⟨dryBulb_enthalpy, fun t w h => ratioOfEnthalpy_enthalpy w h, ?_, ?_, ?_⟩
  · intro t psat rh p hsaturation hpositive
    exact humidityOfRatio_ratioOfHumidity hsaturation hpositive
  · intro t psat rh hsaturation hpositive
    exact humidityOfVaporDensity_vaporDensityOfHumidity hsaturation hpositive
  · intro t psat w p hsaturation
    exact humidityOfVaporDensity_vaporDensityOfRatio hsaturation

/-- Air of twenty degrees, half saturated, at sea level. -/
theorem properties_recovered_temperate :
    dryBulb (enthalpy 20 0.007) 0.007 = (20 : ℚ)
      ∧ ratioOfEnthalpy 20 (enthalpy 20 0) = (leastRatio : ℚ)
      ∧ (∃ w, ratioOfHumidity (fun _ => .ok 2339) 20 0.5 101325 = .ok w
          ∧ humidityOfRatio (fun _ => .ok 2339) 20 w 101325 = .ok (0.5 : ℚ))
      ∧ (∃ rho, vaporDensityOfHumidity (fun _ => .ok 2339) 20 0.5 = .ok rho
          ∧ humidityOfVaporDensity (fun _ => .ok 2339) 20 rho = .ok (0.5 : ℚ))
      ∧ ∃ rho rh : ℚ, vaporDensityOfRatio 20 0.007 101325 = .ok rho
          ∧ humidityOfVaporDensity (fun _ => .ok 2339) 20 rho = .ok rh
          ∧ humidityOfRatio (fun _ => .ok 2339) 20 0.007 101325 = .ok rh := by
  obtain ⟨hdry, henthalpy, hratio, hhumidity, hdensity⟩ :=
    properties_recovered (fun _ => .ok 2339)
  refine ⟨hdry 20 0.007, ?_, hratio 20 2339 0.5 101325 rfl ?_ ?_ ?_ ?_ ?_ ?_,
    hhumidity 20 2339 0.5 rfl ?_ ?_ ?_ ?_, hdensity 20 2339 0.007 101325 rfl ?_ ?_ ?_⟩
  · rw [henthalpy 20 0 (by norm_num [vaporization, vaporHeat]), max_eq_right leastRatio_pos.le]
  all_goals norm_num [leastRatio, massRatio, zeroCelsius]

end Erl.MoistAir
