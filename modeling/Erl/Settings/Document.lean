/-
  Erl.Settings.Document

  Reading settings from a document.

  Every setting may be missing; one that is not known is refused.
-/

import Erl.Settings
import Erl.Toml.Document

namespace Erl

open Toml (Entries)

/-- The files of the host: what each holds, or why it cannot be read. -/
abbrev Files := String → Except String String

/-- What a file holds; an error blames a field. -/
def Files.read (files : Files) (field path : String) : Except SettingsError String :=
  (files path).mapError fun reason => ⟨field, "cannot read \"" ++ path ++ "\": " ++ reason⟩

/-- How much to list. -/
def ListingDetail.ofToml? : Toml.Value → Option ListingDetail :=
  Toml.Value.choice?
    [("none", .none), ("not_by_unique_key_names", .withoutNames), ("verbose", .verbose)]

/-- What to record and list. -/
def OutputSettings.ofToml? (v : Toml.Value) : Option OutputSettings := do
  let es ← v.fields? ["ems_errors", "full_trace", "trace_capacity", "actuator_listing",
    "internal_variable_listing"]
  let base := Settings.default.output
  return {
    emsErrors := ← es.getD "ems_errors" Toml.Value.boolean? base.emsErrors
    fullTrace := ← es.getD "full_trace" Toml.Value.boolean? base.fullTrace
    traceCapacity := ← es.getD "trace_capacity" Toml.Value.count? base.traceCapacity
    pointListing := ← es.getD "actuator_listing" ListingDetail.ofToml? base.pointListing
    internalListing :=
      ← es.getD "internal_variable_listing" ListingDetail.ofToml? base.internalListing }

/-- What stops a program. -/
def LimitSettings.ofToml? (v : Toml.Value) : Option LimitSettings := do
  let es ← v.fields? ["max_while_loop_iterations", "max_subroutine_depth"]
  let base := Settings.default.limits
  return {
    loopEntries := ← es.getD "max_while_loop_iterations" Toml.Value.count? base.loopEntries
    depth := ← es.getD "max_subroutine_depth" Toml.Value.count? base.depth }

/-- A record with one field. -/
def Toml.Value.single? {α : Type} (name : String) (read : Toml.Value → Option α) (fallback : α)
    (v : Toml.Value) : Option α := do
  (← v.fields? [name]).getD name read fallback

/-- All settings. -/
def Settings.ofEntries? (document : Entries) : Option Settings := do
  let base := Settings.default
  let es ← (Toml.Value.table .header document).fields? ["output", "limits", "trend", "random"]
  return {
    output := ← es.getD "output" OutputSettings.ofToml? base.output
    limits := ← es.getD "limits" LimitSettings.ofToml? base.limits
    timestepHours := ← es.getD "trend"
      (Toml.Value.single? "timestep_hours" Toml.Value.number? base.timestepHours)
      base.timestepHours
    seed := ← es.getD "random" (Toml.Value.single? "seed" Toml.Value.count? base.seed) base.seed }

/-- The settings of a document. -/
def Settings.read (text : String) : Except SettingsError Settings :=
  match (Toml.document? text).bind Settings.ofEntries? with
  | some c => .ok c
  | none => .error ⟨"toml", "the document holds no valid settings"⟩

/-- The settings of a file. -/
def Settings.load (files : Files) (path : String) : Except SettingsError Settings :=
  (files.read "config" path).bind Settings.read

end Erl
