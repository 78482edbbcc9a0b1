/-
  Erl.Proofs.Controller.Session

  What a host asks of a controller, and what it is told.

  A session is a list of requests that are made of one controller, in any order: what the host
  offers, what it declares, what it reads and writes, compiling, and runs.  Each request has an
  answer and leaves a controller for the next one.
-/

import Erl.Controller.Run
import Erl.Model.Basic

namespace Erl

/-- What a host asks of a controller. -/
inductive Request where
  | installRoutines (routines : Routines)
  | installCurves (curves : CurveEvaluator)
  | addCell (cell : Cell)
  | assignCell (id : CellId) (x : Float)
  | publishPoint (p : ControlPoint)
  | publishOutput (p : SourcePoint)
  | publishInternal (p : SourcePoint)
  | publishConstruction (name : String)
  | updateClock (clock : Clock)
  | readGlobal (name : String)
  | readInProgram (program name : String)
  | writeGlobal (name : String) (v : Value)
  | addGlobal (name : String) (origin : Origin)
  | declareCurveIndex (name curve : String)
  | declareConstructionIndex (name construction : String)
  | attachActuator (name componentType uniqueName controlType : String)
  | attachSensor (name quantity key : String)
  | attachInternalVariable (name quantity key : String)
  | declareTrend (name variableName : String) (capacity : Nat)
  | addProgram (name source : String)
  | addSubroutine (name source : String)
  | bindProgram (point : CallingPoint) (name : String)
  | applyModel (m : Model)
  | compile
  | run (point : CallingPoint)

/-- What a host is told. -/
inductive Answer where
  /-- Nothing but that the request was carried out. -/
  | done
  | position (n : Nat)
  | value (result : Except AccessError Value)
  | written (result : Except AccessError Unit)
  | declared (result : Except ModelProblem Nat)
  | bound (result : Except ModelProblem Unit)
  | verdict (result : Except ProblemReport Unit)
  | outcomes (result : Except RunError (List Outcome))

namespace Controller

/-- Makes a request.  There is no answer if there cannot be room for the history of a trend. -/
def ask? (c : Controller) : Request → Option (Answer × Controller)
  | .installRoutines routines => some (.done, c.installRoutines routines)
  | .installCurves curves => some (.done, c.installCurves curves)
  | .addCell cell => some (.position (c.addCell cell).1, (c.addCell cell).2)
  | .assignCell id x => some (.done, c.assignCell id x)
  | .publishPoint p => some (.position (c.publishPoint p).1, (c.publishPoint p).2)
  | .publishOutput p => some (.done, c.publishOutput p)
  | .publishInternal p => some (.done, c.publishInternal p)
  | .publishConstruction name =>
    some (.position (c.publishConstruction name).1, (c.publishConstruction name).2)
  | .updateClock clock => some (.done, c.updateClock clock)
  | .readGlobal name => some (.value (c.readGlobal name), c)
  | .readInProgram program name => some (.value (c.readInProgram program name), c)
  | .writeGlobal name v =>
    match c.writeGlobal name v with
    | .ok c' => some (.written (.ok ()), c')
    | .error e => some (.written (.error e), c)
  | .addGlobal name origin => some (declared (c.addGlobal name origin))
  | .declareCurveIndex name curve => some (declared (c.declareCurveIndex name curve))
  | .declareConstructionIndex name construction =>
    some (declared (c.declareConstructionIndex name construction))
  | .attachActuator name componentType uniqueName controlType =>
    some (declared (c.attachActuator name componentType uniqueName controlType))
  | .attachSensor name quantity key => some (declared (c.attachSensor name quantity key))
  | .attachInternalVariable name quantity key =>
    some (declared (c.attachInternalVariable name quantity key))
  | .declareTrend name variableName capacity =>
    (c.declareTrend? name variableName capacity).map declared
  | .addProgram name source => some (declared (c.addProgram name source))
  | .addSubroutine name source => some (declared (c.addSubroutine name source))
  | .bindProgram point name =>
    some (.bound (c.bindProgram point name).1, (c.bindProgram point name).2)
  | .applyModel m => (c.withModel? m).map fun c' => (.verdict c'.verdict, c')
  | .compile => some (.verdict c.compile.verdict, c.compile)
  | .run point => some (.outcomes (c.run point).1, (c.run point).2)
where
  /-- The answer to a declaration. -/
  declared (result : Except ModelProblem Nat × Controller) : Answer × Controller :=
    (.declared result.1, result.2)

/-- Makes requests one after another, and collects the answers. -/
def askEach? (c : Controller) : List Request → Option (List Answer × Controller)
  | [] => some ([], c)
  | request :: rest =>
    (c.ask? request).bind fun (answer, c') =>
      (c'.askEach? rest).map fun (answers, c'') => (answer :: answers, c'')

end Controller

end Erl
