/-
  Erl.Settings

  The settings of a controller.
-/

import Erl.Exchange
import Erl.Decimal.Text

namespace Erl

/-- What is recorded and listed. -/
structure OutputSettings where
  /-- Whether failed evaluations and refused writes are recorded. -/
  emsErrors : Bool
  /-- Whether executed lines are traced. -/
  fullTrace : Bool
  traceCapacity : Nat
  pointListing : ListingDetail
  internalListing : ListingDetail
  deriving Repr, DecidableEq

/-- What stops a program that does not end by itself. -/
structure LimitSettings where
  /-- How often one invocation of a program may enter the bodies of its loops. -/
  loopEntries : Nat
  /-- How deep subroutines may call one another. -/
  depth : Nat
  deriving Repr, DecidableEq

/-- The settings of a controller. -/
structure Settings where
  output : OutputSettings
  limits : LimitSettings
  /-- Hours between two samples of a trend. -/
  timestepHours : Float
  seed : Nat
  deriving Repr, DecidableEq

/-- The settings of a plain run. -/
def Settings.default : Settings where
  output := ⟨false, false, 10000, .none, .none⟩
  limits := ⟨1000000, 64⟩
  timestepHours := 0.25
  seed := 0

/-- A setting that makes no sense: its place and what is wrong. -/
structure SettingsError where
  field : String
  problem : String
  deriving Repr, DecidableEq

/-- The wording of an error. -/
def SettingsError.message (e : SettingsError) : String :=
  "config error: " ++ e.field ++ ": " ++ e.problem

/-- The settings that make no sense. -/
def Settings.problems (c : Settings) : List SettingsError :=
  let check (ok : Bool) (field problem : String) : List SettingsError :=
    if ok then [] else [⟨field, problem⟩]
  check (c.limits.loopEntries != 0) "limits.max_while_loop_iterations" "must be > 0"
    ++ check (c.limits.depth != 0) "limits.max_subroutine_depth" "must be > 0"
    ++ check (c.timestepHours.isFinite && 0.0 < c.timestepHours) "trend.timestep_hours"
      ("must be a positive number of hours, got " ++ Decimal.text c.timestepHours)
    ++ check (!(c.output.fullTrace && c.output.traceCapacity == 0)) "output.trace_capacity"
      "must be > 0 when full_trace is on"

end Erl
