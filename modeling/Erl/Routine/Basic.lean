/-
  Erl.Routine.Basic

  The numeric built-in functions.

  A routine computes a function from numbers, and may draw random numbers on the way.  It ends
  with a number, with the reason why there is none, or it breaks down: a normal draw is cut to
  its bounds, and cutting to a bound that is not a number has no meaning.
-/

import Erl.MoistAir.Saturation
import Erl.Number.Integral
import Erl.Routine.Refusal
import Erl.Routine.Generator

namespace Erl

/-- How a routine ends. -/
inductive Reply where
  | value (x : Float)
  | refused (e : Refusal)
  | breakdown
  deriving Repr, DecidableEq

/-- The routines of a host: each built-in function on a list of numbers. -/
abbrev Routines := Builtin → List Float → Generator → Reply × Generator

namespace Reply

/-- A result as a reply. -/
def ofExcept : Except Refusal Float → Reply
  | .ok x => .value x
  | .error e => .refused e

/-- A finite number as a reply; anything else is refused. -/
def ofFloat (f : Builtin) (x : Float) : Reply :=
  ofExcept (finite f.symbol x)

/-- A property of moist air as a reply. -/
def ofAir (f : Builtin) : Except (MoistAir.Fault Float) Float → Reply
  | .ok x => ofFloat f x
  | .error fault => .refused (.air fault)

end Reply

namespace MathFunction

/-- The ratio of the circumference of a circle to its diameter. -/
def pi : Float := 3.141592653589793

/-- A number cut to bounds, which must be ordered. -/
def cut (x least greatest : Float) : Reply :=
  if least ≤ greatest then .ofFloat (.math .randomNormal) (Scalar.clamp x least greatest)
  else .breakdown

/-- A draw from a uniform distribution. -/
def drawUniform (low high : Float) (g : Generator) : Reply × Generator :=
  if high < low then (.refused (.uniformBounds low high), g)
  else
    let (u, g) := g.next
    (.ofFloat (.math .randomUniform) (low + (high - low) * u), g)

/-- A draw from a normal distribution, cut to bounds; without a positive deviation it is the
    mean. -/
def drawNormal (mean deviation least greatest : Float) (g : Generator) : Reply × Generator :=
  if greatest < least then (.refused (.normalBounds least greatest), g)
  else if deviation ≤ 0.0 then (cut mean least greatest, g)
  else
    let (u, g) := g.next
    let (v, g) := g.next
    let radius := (-2.0 * (Scalar.clamp u 1e-12 1.0).log).sqrt
    (cut (mean + radius * (2.0 * pi * v).cos * deviation) least greatest, g)

/-- Restarts the generator from a seed, which is also the result. -/
def reseed (seed : Float) (g : Generator) : Reply × Generator :=
  (.ofFloat (.math .seedRandom) seed, g.reseeded (Number.toCount (Number.round seed.abs)))

/-- A function of the arguments alone. -/
def plain (f : MathFunction) (args : List Float) : Reply :=
  let reply := Reply.ofFloat (.math f)
  match f, args with
  | round, [x] => reply (Number.round x)
  | mod, [a, b] => if b == 0.0 then .refused .zeroDivisor else reply (Number.remainder a b)
  | sin, [x] => reply x.sin
  | cos, [x] => reply x.cos
  | arcSin, [x] => if -1.0 ≤ x && x ≤ 1.0 then reply x.asin else .refused (.outsideUnit f x)
  | arcCos, [x] => if -1.0 ≤ x && x ≤ 1.0 then reply x.acos else .refused (.outsideUnit f x)
  | degToRad, [x] => reply (x * (pi / 180.0))
  | radToDeg, [x] => reply (x * 57.29577951308232)
  | exp, [x] => reply x.exp
  | ln, [x] => if x ≤ 0.0 then .refused (.notPositive x) else reply x.log
  | max, [a, b] => reply (Scalar.max a b)
  | min, [a, b] => reply (Scalar.min a b)
  | abs, [x] => reply x.abs
  | _, _ => .refused (.argumentCount (.math f) args.length)

/-- A mathematical function of a list of numbers. -/
def evaluate (f : MathFunction) (args : List Float) (g : Generator) : Reply × Generator :=
  match f, args with
  | randomUniform, [low, high] => drawUniform low high g
  | randomNormal, [mean, deviation, least, greatest] =>
    drawNormal mean deviation least greatest g
  | seedRandom, [seed] => reseed seed g
  | _, _ => (f.plain args, g)

end MathFunction

/-- A psychrometric function of a list of numbers. -/
def AirFunction.evaluate (f : AirFunction) (args : List Float) : Reply :=
  let saturation := MoistAir.saturationPressure
  let reply := Reply.ofAir (.air f)
  match f, args with
  | airDensity, [p, t, w] => reply (MoistAir.density p t w)
  | airHeatCapacity, [w, _] => reply (.ok (MoistAir.heatCapacity w))
  | vaporizationHeat, [_, t] => reply (.ok (MoistAir.vaporizationHeat t))
  | vaporEnthalpy, [_, t] => reply (.ok (MoistAir.vaporEnthalpy t))
  | dewPointOfWetBulb, [t, wet, p] => reply do
    let w ← MoistAir.ratioOfWetBulb saturation t wet p
    MoistAir.dewPoint saturation w p
  | dewPointOfRatio, [w, p] => reply (MoistAir.dewPoint saturation w p)
  | enthalpyOfRatio, [t, w] => reply (.ok (MoistAir.enthalpy t w))
  | enthalpyOfHumidity, [t, rh, p] => reply do
    let w ← MoistAir.ratioOfHumidity saturation t rh p
    return MoistAir.enthalpy t w
  | dryBulbOfEnthalpy, [h, w] => reply (.ok (MoistAir.dryBulb h w))
  | vaporDensityOfHumidity, [t, rh] => reply (MoistAir.vaporDensityOfHumidity saturation t rh)
  | vaporDensityOfHumidityOverWater, [t, rh] =>
    reply (MoistAir.vaporDensityOfHumidity MoistAir.saturationOverWater t rh)
  | vaporDensityOfRatio, [t, w, p] => reply (MoistAir.vaporDensityOfRatio t w p)
  | humidityOfVaporDensity, [t, rho] =>
    reply (MoistAir.humidityOfVaporDensity saturation t rho)
  | humidityOfVaporDensityOverWater, [t, rho] =>
    reply (MoistAir.humidityOfVaporDensity MoistAir.saturationOverWater t rho)
  | humidityOfRatio, [t, w, p] => reply (MoistAir.humidityOfRatio saturation t w p)
  | wetBulbOfRatio, [t, w, p] => reply (MoistAir.wetBulb saturation t w p)
  | volumeOfRatio, [t, w, p] => reply (MoistAir.volume t w p)
  | ratioOfDewPoint, [t, p] => reply (MoistAir.ratioOfHumidity saturation t 1.0 p)
  | ratioOfEnthalpy, [t, h] => reply (.ok (MoistAir.ratioOfEnthalpy t h))
  | ratioOfWetBulb, [t, wet, p] => reply (MoistAir.ratioOfWetBulb saturation t wet p)
  | ratioOfHumidity, [t, rh, p] => reply (MoistAir.ratioOfHumidity saturation t rh p)
  | saturationPressure, [t] => reply (saturation t)
  | saturationOfEnthalpy, [h, p] => reply (MoistAir.saturationOfEnthalpy saturation h p)
  | saturationTemperature, [p] => reply (MoistAir.saturationTemperature saturation p)
  | coldWaterHeatCapacity, [_] => reply (.ok 4180.0)
  | hotWaterHeatCapacity, [_] => reply (.ok 4180.0)
  | waterDensity, [t] => reply (.ok (MoistAir.waterDensity t))
  | _, _ => .refused (.argumentCount (.air f) args.length)

/-- The routines used when the host brings none of its own. -/
def Routines.standard : Routines := fun f args g =>
  match f with
  | .math f => f.evaluate args g
  | .air f => (f.evaluate args, g)
  | f => (.refused (.notNumeric f), g)

end Erl
