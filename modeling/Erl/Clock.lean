/-
  Erl.Clock

  The time and weather that the host publishes to programs.
-/

import Erl.Number.Integral

namespace Erl

/-- The state of the simulation at a calling point. -/
structure Clock where
  year : Int
  month : Nat
  dayOfMonth : Nat
  /-- From one for Sunday to seven for Saturday. -/
  dayOfWeek : Nat
  dayOfYear : Nat
  hour : Nat
  minute : Float
  /-- Hours since midnight at the end of the timestep. -/
  currentTime : Float
  /-- The kind of holiday; zero on a regular day. -/
  holiday : Nat
  daylightSavings : Bool
  sunIsUp : Bool
  isRaining : Bool
  warmup : Bool
  zoneTimestep : Float
  systemTimestep : Float
  environment : Nat
  deriving Repr, DecidableEq

namespace Clock

/-- The names of the variables that follow the clock. -/
def variableNames : List String :=
  ["Year", "Month", "DayOfMonth", "DayOfWeek", "DayOfYear", "Hour", "Minute", "CurrentTime",
    "Holiday", "DaylightSavings", "SunIsUp", "IsRaining", "WarmupFlag", "ZoneTimeStep",
    "SystemTimeStep", "CurrentEnvironment"]

/-- A truth value as a number. -/
def flag (b : Bool) : Float :=
  if b then 1.0 else 0.0

/-- The values of the variables that follow the clock, in the order of their names. -/
def values (c : Clock) : List Float :=
  [Float.ofInt c.year, Float.ofNat c.month, Float.ofNat c.dayOfMonth, Float.ofNat c.dayOfWeek,
    Float.ofNat c.dayOfYear, Float.ofNat c.hour, c.minute, c.currentTime,
    Float.ofNat c.holiday, flag c.daylightSavings, flag c.sunIsUp, flag c.isRaining,
    flag c.warmup, c.zoneTimestep, c.systemTimestep, Float.ofNat c.environment]

end Clock

end Erl
