/-
  Erl.Controller.Basic

  The controller: a model, the programs of the model and the state of the simulation.

  The host publishes what it offers and declares the parts of a model in any order, compiles,
  and then runs calling points.  Declarations that are refused are recorded and change nothing
  else.
-/

import Erl.CallingPoint
import Erl.Clock
import Erl.Machine.Execute
import Erl.Model.Problem

namespace Erl

/-- A controller with its model and its state. -/
structure Controller where
  image : Image
  machine : Machine
  exchange : Exchange
  /-- The cells of the host. -/
  cells : Cells
  /-- The folded names of the constructions of the host; their indices count from one. -/
  constructions : Array String
  schedule : Schedule
  problems : ProblemReport
  compiled : Bool
  /-- Whether a fatal halt has ended all runs. -/
  terminated : Bool

/-- Why the host cannot reach a variable. -/
inductive AccessError where
  | unknownVariable (name : String)
  | readOnly (name : String)
  | unknownProgram (name : String)
  deriving Repr, DecidableEq

/-- The wording of an error. -/
def AccessError.message : AccessError → String
  | unknownVariable name => "no global variable named " ++ ModelProblem.quoted name
  | readOnly name => "variable " ++ ModelProblem.quoted name ++ " is read-only"
  | unknownProgram name => "program " ++ ModelProblem.quoted name ++ " is not registered"

namespace Controller

/-- The variables that follow the clock, before anything else is declared. -/
def clockVariables : Store :=
  Clock.variableNames.foldl
    (fun t name => match t.addGlobal name .builtIn with
      | .ok (_, grown) => grown
      | .error _ => t)
    .empty

/-- A controller without a model, for a host with some random numbers. -/
def ofSettings (settings : Settings) (stream : RandomStream) : Controller where
  image := {
    settings
    routines := .standard
    curves := Curves.empty.evaluator
    trendCatalog := .empty
    nodes := #[]
    programCatalog := .empty }
  machine := {
    store := clockVariables
    log := .empty settings.output.traceCapacity
    generator := ⟨stream, settings.seed, 0⟩ }
  exchange := .empty
  cells := #[]
  constructions := #[]
  schedule := .empty
  problems := []
  compiled := false
  terminated := false

/-- Uses the numeric routines of the host. -/
def installRoutines (c : Controller) (routines : Routines) : Controller :=
  { c with image := { c.image with routines } }

/-- Uses the curves of the host. -/
def installCurves (c : Controller) (curves : CurveEvaluator) : Controller :=
  { c with image := { c.image with curves } }

/-- Replaces the variables. -/
def withStore (c : Controller) (store : Store) : Controller :=
  { c with machine := { c.machine with store } }

/-! ## What the host offers -/

/-- Adds a cell of the host. -/
def addCell (c : Controller) (cell : Cell) : CellId × Controller :=
  (c.cells.size, { c with cells := c.cells.push cell })

/-- Lets the host change a cell. -/
def assignCell (c : Controller) (id : CellId) (x : Float) : Controller :=
  { c with cells := c.cells.modify id fun cell => cell.assign x }

/-- Publishes a controlled point; the position is that of the point whose override the host
    has to respect. -/
def publishPoint (c : Controller) (p : ControlPoint) : Nat × Controller :=
  let (id, exchange) := c.exchange.publishPoint p
  (id, { c with exchange })

/-- Publishes an output. -/
def publishOutput (c : Controller) (p : SourcePoint) : Controller :=
  { c with exchange := c.exchange.publishOutput p }

/-- Publishes an internal variable of the host. -/
def publishInternal (c : Controller) (p : SourcePoint) : Controller :=
  { c with exchange := c.exchange.publishInternal p }

/-- The index of a construction of the host. -/
def constructionIndex? (c : Controller) (name : String) : Option Nat :=
  (c.constructions.findIdx? (· == Text.fold name)).map (· + 1)

/-- Publishes a construction of the host, whose index is the same every time. -/
def publishConstruction (c : Controller) (name : String) : Nat × Controller :=
  match c.constructionIndex? name with
  | some index => (index, c)
  | none =>
    (c.constructions.size + 1, { c with constructions := c.constructions.push (Text.fold name) })

/-- What is available, as far as the settings ask for it. -/
def availability (c : Controller) : List String :=
  let output := c.image.settings.output
  c.exchange.pointListing output.pointListing
    ++ c.exchange.internalListing output.internalListing

/-! ## Variables and time -/

/-- Refreshes the variables that follow the clock. -/
def updateClock (c : Controller) (clock : Clock) : Controller :=
  c.withStore (clock.values.zipIdx.foldl (fun t (x, id) => t.set id (.number x))
    c.machine.store)

/-- The value of a global. -/
def readGlobal (c : Controller) (name : String) : Except AccessError Value :=
  match c.machine.store.global? name with
  | some id => .ok (c.machine.store.value id)
  | none => .error (.unknownVariable name)

/-- The value of a name as a program sees it. -/
def readInProgram (c : Controller) (program name : String) : Except AccessError Value :=
  match c.image.findProgram? program with
  | none => .error (.unknownProgram program)
  | some p =>
    match c.machine.store.lookup? p name with
    | some id => .ok (c.machine.store.value id)
    | none => .error (.unknownVariable name)

/-- Lets the host assign a global that is not read-only. -/
def writeGlobal (c : Controller) (name : String) (v : Value) : Except AccessError Controller :=
  match c.machine.store.global? name with
  | none => .error (.unknownVariable name)
  | some id =>
    if c.machine.store.isProtected id then .error (.readOnly name)
    else .ok (c.withStore (c.machine.store.set id v))

/-- The trend with a name. -/
def trend? (c : Controller) (name : String) : Option Trend :=
  (c.image.findTrend? name).bind (c.image.trends[·]?)

end Controller

end Erl
