/-
  Erl.Model.Basic

  Models: what is declared to a controller in one go.

  The parts of a model are declared kind by kind, so that those a kind refers to come before
  it.  A refused declaration is recorded and does not keep the others from being made; at the
  end everything is compiled.
-/

import Erl.Curve
import Erl.Controller.Lowering

namespace Erl

/-! ## Declarations -/

/-- A global, with the number it starts with. -/
structure GlobalDeclaration where
  name : String
  origin : Origin
  initial : Option Float
  deriving Repr, DecidableEq

/-- A global that is tied to a quantity of the host. -/
structure SourceDeclaration where
  name : String
  quantity : String
  key : String
  deriving Repr, DecidableEq

/-- A global that is tied to a controlled point. -/
structure ActuatorDeclaration where
  name : String
  componentType : String
  uniqueName : String
  controlType : String
  deriving Repr, DecidableEq

/-- A global that holds the index of something named. -/
structure IndexDeclaration where
  name : String
  subject : String
  deriving Repr, DecidableEq

/-- A trend of a global. -/
structure TrendDeclaration where
  name : String
  source : String
  capacity : Nat
  deriving Repr, DecidableEq

/-- A program or subroutine. -/
structure CodeDeclaration where
  name : String
  source : String
  deriving Repr, DecidableEq

/-- Programs that run at a calling point, under an optional label. -/
structure ManagerDeclaration where
  label : Option String
  point : String
  programs : List String
  deriving Repr, DecidableEq

/-- All that is declared. -/
structure Model where
  globals : List GlobalDeclaration
  sensors : List SourceDeclaration
  actuators : List ActuatorDeclaration
  internalVariables : List SourceDeclaration
  curves : List Curve
  curveIndices : List IndexDeclaration
  constructionIndices : List IndexDeclaration
  trends : List TrendDeclaration
  programs : List CodeDeclaration
  subroutines : List CodeDeclaration
  managers : List ManagerDeclaration
  deriving Repr, DecidableEq

/-- The curves of a model. -/
def Model.toCurves (m : Model) : Except Refusal Curves :=
  Curves.ofList m.curves

/-! ## Application -/

/-- One step of applying a model. -/
inductive Declaration where
  | global (d : GlobalDeclaration)
  | sensor (d : SourceDeclaration)
  | actuator (d : ActuatorDeclaration)
  | internalVariable (d : SourceDeclaration)
  | curveIndex (d : IndexDeclaration)
  | constructionIndex (d : IndexDeclaration)
  | trend (d : TrendDeclaration)
  | program (d : CodeDeclaration)
  | subroutine (d : CodeDeclaration)
  /-- A manager at a calling point that does not exist. -/
  | unknownPoint (name : String)
  /-- One program of a manager. -/
  | bind (point : CallingPoint) (program : String)
  deriving Repr, DecidableEq

/-- The steps of a manager: one for each program, or only one if its calling point does not
    exist. -/
def ManagerDeclaration.steps (d : ManagerDeclaration) : List Declaration :=
  match CallingPoint.find? d.point with
  | none => [.unknownPoint d.point]
  | some point => d.programs.map (.bind point)

/-- The steps of applying a model, in order. -/
def Model.steps (m : Model) : List Declaration :=
  m.globals.map .global
    ++ m.sensors.map .sensor
    ++ m.actuators.map .actuator
    ++ m.internalVariables.map .internalVariable
    ++ m.curveIndices.map .curveIndex
    ++ m.constructionIndices.map .constructionIndex
    ++ m.trends.map .trend
    ++ m.programs.map .program
    ++ m.subroutines.map .subroutine
    ++ m.managers.flatMap ManagerDeclaration.steps

namespace Controller

/-- Declares a global and lets it start with a number. -/
def declareInitial (c : Controller) (d : GlobalDeclaration) :
    Except ModelProblem VariableId × Controller :=
  match c.addGlobal d.name d.origin, d.initial with
  | (.ok id, c), some x => (.ok id, c.withStore (c.machine.store.set id (.number x)))
  | result, _ => result

/-- Takes one step of applying a model; the result says whether it was refused.  There is none
    if there cannot be room for the history of a trend. -/
def declare? (c : Controller) : Declaration → Option (Except ModelProblem Unit × Controller)
  | .global d => some (discard (c.declareInitial d))
  | .sensor d => some (discard (c.attachSensor d.name d.quantity d.key))
  | .actuator d =>
    some (discard (c.attachActuator d.name d.componentType d.uniqueName d.controlType))
  | .internalVariable d => some (discard (c.attachInternalVariable d.name d.quantity d.key))
  | .curveIndex d => some (discard (c.declareCurveIndex d.name d.subject))
  | .constructionIndex d => some (discard (c.declareConstructionIndex d.name d.subject))
  | .trend d => (c.declareTrend? d.name d.source d.capacity).map discard
  | .program d => some (discard (c.addProgram d.name d.source))
  | .subroutine d => some (discard (c.addSubroutine d.name d.source))
  | .unknownPoint name => some (c.orRecord (.error (.unknownCallingPoint name)))
  | .bind point program => some (c.bindProgram point program)
where
  /-- Forgets the position of what was declared. -/
  discard (result : Except ModelProblem Nat × Controller) :
      Except ModelProblem Unit × Controller :=
    (result.1.map fun _ => (), result.2)

/-- Applies a model and compiles, unless a step has no result. -/
def withModel? (c : Controller) (m : Model) : Option Controller :=
  (m.steps.foldlM (fun (c : Controller) d => (c.declare? d).map Prod.snd) c).map compile

end Controller

end Erl
