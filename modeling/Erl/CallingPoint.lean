/-
  Erl.CallingPoint

  The phases of the host's timestep loop at which programs run, and which programs run there.
-/

import Erl.Text.Fold
import Erl.Text.Line
import Erl.Value

namespace Erl

/-- A phase of the host's timestep loop. -/
inductive CallingPoint where
  | beginNewEnvironment
  | afterNewEnvironmentWarmUpIsComplete
  | beginZoneTimestepBeforeInitHeatBalance
  | beginZoneTimestepAfterInitHeatBalance
  | beginTimestepBeforePredictor
  | beginZoneTimestepBeforeSetCurrentWeather
  | afterPredictorBeforeHvacManagers
  | afterPredictorAfterHvacManagers
  | insideHvacSystemIterationLoop
  | endOfSystemTimestepBeforeHvacReporting
  | endOfSystemTimestepAfterHvacReporting
  | endOfZoneTimestepBeforeZoneReporting
  | endOfZoneTimestepAfterZoneReporting
  | endOfSystemSizing
  | endOfZoneSizing
  | afterComponentInputReadIn
  | userDefinedComponentModel
  | unitarySystemSizing
  deriving Repr, DecidableEq

namespace CallingPoint

/-- All calling points, in the order of the host. -/
def all : List CallingPoint :=
  [beginNewEnvironment, afterNewEnvironmentWarmUpIsComplete,
    beginZoneTimestepBeforeInitHeatBalance, beginZoneTimestepAfterInitHeatBalance,
    beginTimestepBeforePredictor, beginZoneTimestepBeforeSetCurrentWeather,
    afterPredictorBeforeHvacManagers, afterPredictorAfterHvacManagers,
    insideHvacSystemIterationLoop, endOfSystemTimestepBeforeHvacReporting,
    endOfSystemTimestepAfterHvacReporting, endOfZoneTimestepBeforeZoneReporting,
    endOfZoneTimestepAfterZoneReporting, endOfSystemSizing, endOfZoneSizing,
    afterComponentInputReadIn, userDefinedComponentModel, unitarySystemSizing]

/-- How a calling point is written. -/
def name : CallingPoint → String
  | beginNewEnvironment => "BeginNewEnvironment"
  | afterNewEnvironmentWarmUpIsComplete => "AfterNewEnvironmentWarmUpIsComplete"
  | beginZoneTimestepBeforeInitHeatBalance => "BeginZoneTimestepBeforeInitHeatBalance"
  | beginZoneTimestepAfterInitHeatBalance => "BeginZoneTimestepAfterInitHeatBalance"
  | beginTimestepBeforePredictor => "BeginTimestepBeforePredictor"
  | beginZoneTimestepBeforeSetCurrentWeather => "BeginZoneTimestepBeforeSetCurrentWeather"
  | afterPredictorBeforeHvacManagers => "AfterPredictorBeforeHVACManagers"
  | afterPredictorAfterHvacManagers => "AfterPredictorAfterHVACManagers"
  | insideHvacSystemIterationLoop => "InsideHVACSystemIterationLoop"
  | endOfSystemTimestepBeforeHvacReporting => "EndOfSystemTimestepBeforeHVACReporting"
  | endOfSystemTimestepAfterHvacReporting => "EndOfSystemTimestepAfterHVACReporting"
  | endOfZoneTimestepBeforeZoneReporting => "EndOfZoneTimestepBeforeZoneReporting"
  | endOfZoneTimestepAfterZoneReporting => "EndOfZoneTimestepAfterZoneReporting"
  | endOfSystemSizing => "EndOfSystemSizing"
  | endOfZoneSizing => "EndOfZoneSizing"
  | afterComponentInputReadIn => "AfterComponentInputReadIn"
  | userDefinedComponentModel => "UserDefinedComponentModel"
  | unitarySystemSizing => "UnitarySystemSizing"

/-- The calling point of a name, in any letter case and with blanks around it. -/
def find? (s : String) : Option CallingPoint :=
  all.find? fun p => Text.sameName p.name (Text.trimmed s)

end CallingPoint

/-- The programs of each calling point, in the order in which they were bound. -/
structure Schedule where
  bindings : Array (CallingPoint × ProgramId)
  deriving Repr, DecidableEq

namespace Schedule

/-- No program is bound. -/
def empty : Schedule := ⟨#[]⟩

/-- Appends a program to those of a calling point. -/
def bind (s : Schedule) (point : CallingPoint) (program : ProgramId) : Schedule :=
  ⟨s.bindings.push (point, program)⟩

/-- The programs of a calling point. -/
def programs (s : Schedule) (point : CallingPoint) : List ProgramId :=
  s.bindings.toList.filterMap fun (p, program) => if p = point then some program else none

end Schedule

end Erl
