/-
  Erl.Model.Document

  Reading models from a document.

  Each kind of declaration is an array of records.  A field that is not known is refused.
-/

import Erl.Settings.Document
import Erl.Model.Basic

namespace Erl

open Toml (Entries)

/-- The origins that a declared global can have. -/
def GlobalDeclaration.origins : List (String × Origin) :=
  [("user", .user), ("external_interface", .externalInterface), ("fmu_import", .fmuImport),
    ("fmu_export", .fmuExport)]

/-- A global. -/
def GlobalDeclaration.ofToml? (v : Toml.Value) : Option GlobalDeclaration := do
  let es ← v.fields? ["name", "origin", "initial_value"]
  return {
    name := ← es.required "name" Toml.Value.text?
    origin := ← es.getD "origin" (Toml.Value.choice? origins) .user
    initial := ← es.optional "initial_value" Toml.Value.number? }

/-- A global that is tied to a quantity, whose two names are in the given fields. -/
def SourceDeclaration.ofToml? (quantity key : String) (v : Toml.Value) :
    Option SourceDeclaration := do
  let es ← v.fields? ["name", quantity, key]
  return {
    name := ← es.required "name" Toml.Value.text?
    quantity := ← es.required quantity Toml.Value.text?
    key := ← es.required key Toml.Value.text? }

/-- A global that is tied to a controlled point. -/
def ActuatorDeclaration.ofToml? (v : Toml.Value) : Option ActuatorDeclaration := do
  let es ← v.fields? ["name", "component_type", "unique_name", "control_type"]
  return {
    name := ← es.required "name" Toml.Value.text?
    componentType := ← es.required "component_type" Toml.Value.text?
    uniqueName := ← es.required "unique_name" Toml.Value.text?
    controlType := ← es.required "control_type" Toml.Value.text? }

/-- The form of a curve. -/
def CurveShape.ofToml? : Toml.Value → Option CurveShape :=
  Toml.Value.choice?
    [("linear", .linear), ("quadratic", .quadratic), ("cubic", .cubic),
      ("biquadratic", .biquadratic)]

/-- A curve. -/
def Curve.ofToml? (v : Toml.Value) : Option Curve := do
  let es ← v.fields? ["name", "form", "coefficients", "min_x", "max_x", "min_y", "max_y",
    "min_output", "max_output"]
  let limits (least greatest : String) : Option Limits := do
    return ⟨← es.optional least Toml.Value.number?, ← es.optional greatest Toml.Value.number?⟩
  return {
    name := ← es.required "name" Toml.Value.text?
    form := ← es.required "form" CurveShape.ofToml?
    coefficients := ← es.required "coefficients" (Toml.Value.list? Toml.Value.number?)
    x := ← limits "min_x" "max_x"
    y := ← limits "min_y" "max_y"
    output := ← limits "min_output" "max_output" }

/-- A global that holds an index; the name of its subject is in the given field. -/
def IndexDeclaration.ofToml? (subject : String) (v : Toml.Value) : Option IndexDeclaration := do
  let es ← v.fields? ["name", subject]
  return {
    name := ← es.required "name" Toml.Value.text?
    subject := ← es.required subject Toml.Value.text? }

/-- A trend. -/
def TrendDeclaration.ofToml? (v : Toml.Value) : Option TrendDeclaration := do
  let es ← v.fields? ["name", "variable", "capacity"]
  return {
    name := ← es.required "name" Toml.Value.text?
    source := ← es.required "variable" Toml.Value.text?
    capacity := ← es.required "capacity" Toml.Value.count? }

/-- A program or subroutine. -/
def CodeDeclaration.ofToml? (v : Toml.Value) : Option CodeDeclaration := do
  let es ← v.fields? ["name", "source"]
  return {
    name := ← es.required "name" Toml.Value.text?
    source := ← es.required "source" Toml.Value.text? }

/-- The programs of a calling point. -/
def ManagerDeclaration.ofToml? (v : Toml.Value) : Option ManagerDeclaration := do
  let es ← v.fields? ["name", "calling_point", "programs"]
  return {
    label := ← es.optional "name" Toml.Value.text?
    point := ← es.required "calling_point" Toml.Value.text?
    programs := ← es.required "programs" (Toml.Value.list? Toml.Value.text?) }

/-- The fields of a document for a model. -/
def Model.fieldNames : List String :=
  ["globals", "sensors", "actuators", "internal_variables", "curves", "curve_index_variables",
    "construction_index_variables", "trends", "programs", "subroutines", "calling_points"]

/-- A whole model. -/
def Model.ofEntries? (document : Entries) : Option Model := do
  let es ← (Toml.Value.table .header document).fields? Model.fieldNames
  let all {α : Type} (name : String) (read : Toml.Value → Option α) : Option (List α) :=
    es.getD name (Toml.Value.list? read) []
  return {
    globals := ← all "globals" GlobalDeclaration.ofToml?
    sensors := ← all "sensors" (SourceDeclaration.ofToml? "output_variable" "key")
    actuators := ← all "actuators" ActuatorDeclaration.ofToml?
    internalVariables :=
      ← all "internal_variables" (SourceDeclaration.ofToml? "data_type" "unique_name")
    curves := ← all "curves" Curve.ofToml?
    curveIndices := ← all "curve_index_variables" (IndexDeclaration.ofToml? "curve")
    constructionIndices :=
      ← all "construction_index_variables" (IndexDeclaration.ofToml? "construction")
    trends := ← all "trends" TrendDeclaration.ofToml?
    programs := ← all "programs" CodeDeclaration.ofToml?
    subroutines := ← all "subroutines" CodeDeclaration.ofToml?
    managers := ← all "calling_points" ManagerDeclaration.ofToml? }

/-- The model of a document. -/
def Model.read (text : String) : Except SettingsError Model :=
  match (Toml.document? text).bind Model.ofEntries? with
  | some m => .ok m
  | none => .error ⟨"model", "the document holds no valid model"⟩

/-- The model of a file. -/
def Model.load (files : Files) (path : String) : Except SettingsError Model :=
  (files.read "model" path).bind Model.read

end Erl
