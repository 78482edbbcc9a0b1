/-
  Erl.Controller.Declare

  Declaring the parts of a model.

  Each declaration is attempted on the controller; if it is refused, the controller stays as it was
  except that the problem is recorded.
-/

import Erl.Controller.Basic

namespace Erl.Controller

/-- Keeps a successful attempt, and records the problem of a refused one. -/
def orRecord {α : Type} (c : Controller) :
    Except ModelProblem (α × Controller) → Except ModelProblem α × Controller
  | .ok (a, c') => (.ok a, c')
  | .error problem => (.error problem, { c with problems := c.problems ++ [problem] })

/-- Refuses a variable's name that has a flaw. -/
def checkName (entity : Entity) (name : String) : Except ModelProblem Unit :=
  match NameFlaw.ofVariable? name with
  | some flaw => .error (.invalidName entity name flaw)
  | none => .ok ()

/-- Adds a global; its name must be new. -/
def attemptVariable (c : Controller) (name : String) (origin : Origin) :
    Except ModelProblem (VariableId × Controller) :=
  match c.machine.store.addGlobal name origin with
  | .error _ => .error (.duplicateName .variableNames name)
  | .ok (id, store) => .ok (id, c.withStore store)

/-! ## Globals -/

/-- Adds a global with a value. -/
def attemptConstant (c : Controller) (name : String) (origin : Origin) (x : Float) :
    Except ModelProblem (VariableId × Controller) := do
  let (id, c) ← c.attemptVariable name origin
  return (id, c.withStore (c.machine.store.set id (.number x)))

/-- Declares a global. -/
def addGlobal (c : Controller) (name : String) (origin : Origin) :
    Except ModelProblem VariableId × Controller :=
  c.orRecord do
    checkName .globalVariable name
    c.attemptVariable name origin

/-- Declares a global that holds the index of a curve. -/
def declareCurveIndex (c : Controller) (name curve : String) :
    Except ModelProblem VariableId × Controller :=
  c.orRecord do
    checkName .curveIndexVariable name
    match c.image.curves.index? curve with
    | none => throw (.curveNotFound curve)
    | some index => c.attemptConstant name .curveIndex (Float.ofNat index)

/-- Declares a global that holds the index of a construction. -/
def declareConstructionIndex (c : Controller) (name construction : String) :
    Except ModelProblem VariableId × Controller :=
  c.orRecord do
    checkName .constructionIndexVariable name
    match c.constructionIndex? construction with
    | none => throw (.constructionNotFound construction)
    | some index => c.attemptConstant name .constructionIndex (Float.ofNat index)

/-! ## Exchange -/

/-- Ties a new variable to a controlled point. -/
def attemptActuator (c : Controller) (name : String) (available : Nat) :
    Except ModelProblem (VariableId × Controller) := do
  let (id, c) ← c.attemptVariable name .actuator
  let (actuator, exchange) := c.exchange.tieActuator ⟨name, id, available⟩
  return (id, { c.withStore (c.machine.store.linkActuator id actuator) with exchange })

/-- Ties a global to a controlled point.  A point that is used already keeps its variable,
    which can be asked for again by its own name only. -/
def attachActuator (c : Controller) (name componentType uniqueName controlType : String) :
    Except ModelProblem VariableId × Controller :=
  c.orRecord do
    checkName .actuator name
    match c.exchange.findPoint? componentType uniqueName controlType with
    | none => throw (.actuatorNotFound componentType uniqueName controlType)
    | some available =>
      match (c.exchange.actuatorOf? available).bind (c.exchange.actuators[·]?) with
      | none => c.attemptActuator name available
      | some used =>
        if Text.sameName used.name name then return (used.target, c)
        else throw (.actuatorNameConflict used.name name)

/-- The global with a name, if one of some ties connects it to a source. -/
def tiedGlobal? (c : Controller) (ties : Array Tie) (name : String) (available : Nat) :
    Option VariableId :=
  (c.machine.store.global? name).filter fun id => Exchange.isTied ties id available

/-- Ties a global to an output.  A variable that is tied to it already is returned as it
    is. -/
def attachSensor (c : Controller) (name quantity key : String) :
    Except ModelProblem VariableId × Controller :=
  c.orRecord do
    checkName .sensor name
    match c.exchange.findOutput? quantity key with
    | none => throw (.sensorNotFound quantity key)
    | some available =>
      match c.tiedGlobal? c.exchange.sensors name available with
      | some id => return (id, c)
      | none =>
        let (id, c) ← c.attemptVariable name .sensor
        return (id, { c with exchange := (c.exchange.tieSensor ⟨name, id, available⟩).2 })

/-- Ties a global to an internal variable of the host.  A variable that is tied to it already
    is returned as it is. -/
def attachInternalVariable (c : Controller) (name quantity key : String) :
    Except ModelProblem VariableId × Controller :=
  c.orRecord do
    checkName .internalVariable name
    match c.exchange.findInternal? quantity key with
    | none => throw (.internalVariableNotFound quantity key)
    | some available =>
      match c.tiedGlobal? c.exchange.internalVariables name available with
      | some id => return (id, c)
      | none =>
        let (id, c) ← c.attemptVariable name .internalVariable
        return (id,
          { c with exchange := (c.exchange.tieInternal ⟨name, id, available⟩).2 })

/-! ## Trends -/

/-- The global that a trend follows, if nothing is wrong with the declaration of the trend. -/
def trendSource (c : Controller) (name variableName : String) (capacity : Nat) :
    Except ModelProblem VariableId := do
  checkName .trend name
  if (c.image.findTrend? name).isSome then throw (.duplicateName .trendNames name)
  match c.machine.store.global? variableName with
  | none => throw (.unknownTrendVariable name variableName)
  | some source => if capacity = 0 then throw (.emptyTrend name) else return source

/-- Attaches a history to a global.  There is no result if there cannot be room for the
    history. -/
def declareTrend? (c : Controller) (name variableName : String) (capacity : Nat) :
    Option (Except ModelProblem TrendId × Controller) :=
  match c.trendSource name variableName capacity with
  | .error problem => some (c.orRecord (.error problem))
  | .ok source =>
    (History.ofCapacity? capacity).map fun history =>
      (.ok c.image.trends.size,
        { c with image := { c.image with
          trendCatalog := (c.image.trendCatalog.enter ⟨name, source, history⟩).2 } })

/-! ## Programs -/

/-- Adds a program or subroutine, which has to be compiled before anything runs again. -/
def attemptProgram (c : Controller) (entity : Entity) (kind : ProgramKind) (name source : String) :
    Except ModelProblem (ProgramId × Controller) :=
  match NameFlaw.ofProgram? name with
  | some flaw => .error (.invalidName entity name flaw)
  | none =>
    if (c.image.findProgram? name).isSome then .error (.duplicateName .programNames name)
    else
      .ok (c.image.programs.size,
        { c with
          image := { c.image with
            programCatalog := (c.image.programCatalog.enter ⟨name, kind, source, #[]⟩).2 }
          compiled := false })

/-- Adds a program. -/
def addProgram (c : Controller) (name source : String) :
    Except ModelProblem ProgramId × Controller :=
  c.orRecord (c.attemptProgram .program .main name source)

/-- Adds a subroutine. -/
def addSubroutine (c : Controller) (name source : String) :
    Except ModelProblem ProgramId × Controller :=
  c.orRecord (c.attemptProgram .subroutine .subroutine name source)

/-- Appends a program to those that run at a calling point. -/
def attemptBind (c : Controller) (point : CallingPoint) (name : String) :
    Except ModelProblem (Unit × Controller) :=
  match c.image.findProgram? name with
  | none => .error (.unknownProgram name)
  | some id =>
    match (c.image.programs[id]?).map Program.kind with
    | some .main => .ok ((), { c with schedule := c.schedule.bind point id })
    | _ => .error (.subroutineAtCallingPoint name)

/-- Lets a program run at a calling point, after those that already do. -/
def bindProgram (c : Controller) (point : CallingPoint) (name : String) :
    Except ModelProblem Unit × Controller :=
  c.orRecord (c.attemptBind point name)

end Erl.Controller
