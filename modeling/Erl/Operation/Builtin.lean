/-
  Erl.Operation.Builtin

  The built-in functions, by the kind of work they do.

  Mathematical and psychrometric functions are numeric: they are computed by the host's
  routines from numbers alone.  Messages go to the log, trend functions read the
  history of a variable, and one function evaluates a performance curve.
-/

import Erl.Text.Fold

namespace Erl

/-- How many operands an operation takes. -/
inductive Arity where
  | exactly (count : Nat)
  | between (least most : Nat)
  deriving Repr, DecidableEq

namespace Arity

/-- Whether an operation takes this many operands. -/
def accepts : Arity → Nat → Bool
  | exactly n, count => count == n
  | between least most, count => least ≤ count && count ≤ most

/-- The least number of operands. -/
def least : Arity → Nat
  | exactly n => n
  | between least _ => least

/-- The greatest number of operands. -/
def most : Arity → Nat
  | exactly n => n
  | between _ most => most

/-- How an arity is written in messages. -/
def text : Arity → String
  | exactly n => Nat.repr n
  | between least most => Nat.repr least ++ " to " ++ Nat.repr most

end Arity

/-- Functions on plain numbers. -/
inductive MathFunction where
  | round
  | mod
  | sin
  | cos
  | arcSin
  | arcCos
  | degToRad
  | radToDeg
  | exp
  | ln
  | max
  | min
  | abs
  | randomUniform
  | randomNormal
  | seedRandom
  deriving Repr, DecidableEq

/-- Functions on the state of moist air and of water. -/
inductive AirFunction where
  | airDensity
  | airHeatCapacity
  | vaporizationHeat
  | vaporEnthalpy
  | dewPointOfWetBulb
  | dewPointOfRatio
  | enthalpyOfRatio
  | enthalpyOfHumidity
  | dryBulbOfEnthalpy
  | vaporDensityOfHumidity
  | vaporDensityOfHumidityOverWater
  | vaporDensityOfRatio
  | humidityOfVaporDensity
  | humidityOfVaporDensityOverWater
  | humidityOfRatio
  | wetBulbOfRatio
  | volumeOfRatio
  | ratioOfDewPoint
  | ratioOfEnthalpy
  | ratioOfWetBulb
  | ratioOfHumidity
  | saturationPressure
  | saturationOfEnthalpy
  | saturationTemperature
  | coldWaterHeatCapacity
  | hotWaterHeatCapacity
  | waterDensity
  deriving Repr, DecidableEq

/-- Functions that write a message to the log. -/
inductive MessageFunction where
  | fatalHalt
  | severe
  | warning
  deriving Repr, DecidableEq

/-- Functions of the history of a variable. -/
inductive TrendFunction where
  | value
  | average
  | max
  | min
  | direction
  | sum
  deriving Repr, DecidableEq

/-- A built-in function. -/
inductive Builtin where
  | math (f : MathFunction)
  | air (f : AirFunction)
  | message (f : MessageFunction)
  | trend (f : TrendFunction)
  | curveValue
  deriving Repr, DecidableEq

/-- The name of a mathematical function, and its arity. -/
def MathFunction.entry : MathFunction → String × Arity
  | round => ("Round", .exactly 1)
  | mod => ("Mod", .exactly 2)
  | sin => ("Sin", .exactly 1)
  | cos => ("Cos", .exactly 1)
  | arcSin => ("ArcSin", .exactly 1)
  | arcCos => ("ArcCos", .exactly 1)
  | degToRad => ("DegToRad", .exactly 1)
  | radToDeg => ("RadToDeg", .exactly 1)
  | exp => ("Exp", .exactly 1)
  | ln => ("Ln", .exactly 1)
  | max => ("Max", .exactly 2)
  | min => ("Min", .exactly 2)
  | abs => ("Abs", .exactly 1)
  | randomUniform => ("RandomUniform", .exactly 2)
  | randomNormal => ("RandomNormal", .exactly 4)
  | seedRandom => ("SeedRandom", .exactly 1)

/-- The name of a psychrometric function, and its arity. -/
def AirFunction.entry : AirFunction → String × Arity
  | airDensity => ("RhoAirFnPbTdbW", .exactly 3)
  | airHeatCapacity => ("CpAirFnWTdb", .exactly 2)
  | vaporizationHeat => ("HfgAirFnWTdb", .exactly 2)
  | vaporEnthalpy => ("HgAirFnWTdb", .exactly 2)
  | dewPointOfWetBulb => ("TdpFnTdbTwbPb", .exactly 3)
  | dewPointOfRatio => ("TdpFnWPb", .exactly 2)
  | enthalpyOfRatio => ("HFnTdbW", .exactly 2)
  | enthalpyOfHumidity => ("HFnTdbRhPb", .exactly 3)
  | dryBulbOfEnthalpy => ("TdbFnHW", .exactly 2)
  | vaporDensityOfHumidity => ("RhovFnTdbRh", .exactly 2)
  | vaporDensityOfHumidityOverWater => ("RhovFnTdbRhLBnd0C", .exactly 2)
  | vaporDensityOfRatio => ("RhovFnTdbWPb", .exactly 3)
  | humidityOfVaporDensity => ("RhFnTdbRhov", .exactly 2)
  | humidityOfVaporDensityOverWater => ("RhFnTdbRhovLBnd0C", .exactly 2)
  | humidityOfRatio => ("RhFnTdbWPb", .exactly 3)
  | wetBulbOfRatio => ("TwbFnTdbWPb", .exactly 3)
  | volumeOfRatio => ("VFnTdbWPb", .exactly 3)
  | ratioOfDewPoint => ("WFnTdpPb", .exactly 2)
  | ratioOfEnthalpy => ("WFnTdbH", .exactly 2)
  | ratioOfWetBulb => ("WFnTdbTwbPb", .exactly 3)
  | ratioOfHumidity => ("WFnTdbRhPb", .exactly 3)
  | saturationPressure => ("PsatFnTemp", .exactly 1)
  | saturationOfEnthalpy => ("TsatFnHPb", .exactly 2)
  | saturationTemperature => ("TsatFnPb", .exactly 1)
  | coldWaterHeatCapacity => ("CpCW", .exactly 1)
  | hotWaterHeatCapacity => ("CpHW", .exactly 1)
  | waterDensity => ("RhoH2O", .exactly 1)

/-- The name of a message function, and its arity. -/
def MessageFunction.entry : MessageFunction → String × Arity
  | fatalHalt => ("FatalHaltEp", .exactly 1)
  | severe => ("SevereWarningEp", .exactly 1)
  | warning => ("WarningEp", .exactly 1)

/-- The name of a trend function, and its arity. -/
def TrendFunction.entry : TrendFunction → String × Arity
  | value => ("TrendValue", .between 1 2)
  | average => ("TrendAverage", .between 1 2)
  | max => ("TrendMax", .between 1 2)
  | min => ("TrendMin", .between 1 2)
  | direction => ("TrendDirection", .between 1 2)
  | sum => ("TrendSum", .between 1 2)

namespace Builtin

/-- All built-in functions, in catalog order. -/
def all : List Builtin :=
  [math .round, math .mod, math .sin, math .cos, math .arcSin, math .arcCos, math .degToRad,
    math .radToDeg, math .exp, math .ln, math .max, math .min, math .abs, math .randomUniform,
    math .randomNormal, math .seedRandom,
    air .airDensity, air .airHeatCapacity, air .vaporizationHeat, air .vaporEnthalpy,
    air .dewPointOfWetBulb, air .dewPointOfRatio, air .enthalpyOfRatio, air .enthalpyOfHumidity,
    air .dryBulbOfEnthalpy, air .vaporDensityOfHumidity, air .vaporDensityOfHumidityOverWater,
    air .vaporDensityOfRatio, air .humidityOfVaporDensity, air .humidityOfVaporDensityOverWater,
    air .humidityOfRatio, air .wetBulbOfRatio, air .volumeOfRatio, air .ratioOfDewPoint,
    air .ratioOfEnthalpy, air .ratioOfWetBulb, air .ratioOfHumidity, air .saturationPressure,
    air .saturationOfEnthalpy, air .saturationTemperature, air .coldWaterHeatCapacity,
    air .hotWaterHeatCapacity, air .waterDensity,
    message .fatalHalt, message .severe, message .warning,
    trend .value, trend .average, trend .max, trend .min, trend .direction, trend .sum,
    curveValue]

/-- The name of a function, and its arity. -/
def entry : Builtin → String × Arity
  | math f => f.entry
  | air f => f.entry
  | message f => f.entry
  | trend f => f.entry
  | curveValue => ("CurveValue", .between 2 6)

/-- The name of a function, without the sign that marks a call. -/
def name (f : Builtin) : String :=
  f.entry.1

/-- How many arguments a function takes. -/
def arity (f : Builtin) : Arity :=
  f.entry.2

/-- How a function is written in a call. -/
def symbol (f : Builtin) : String :=
  "@" ++ f.name

/-- A name without one leading call sign. -/
def bareName (s : String) : String :=
  match s.toList with
  | '@' :: cs => String.ofList cs
  | _ => s

/-- The function of a name, in any letter case and with or without the call sign. -/
def find? (name : String) : Option Builtin :=
  all.find? fun f => Text.sameName f.name (bareName name)

end Builtin

end Erl
