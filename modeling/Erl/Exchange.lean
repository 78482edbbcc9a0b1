/-
  Erl.Exchange

  What the host offers to programs, and what programs use of it.

  The host publishes points that can be controlled and sources that can be read, each under
  names that are compared without blanks around them and without regard to letter case; a
  second publication of the same names is ignored.  The model then ties variables to points
  and sources.  At a calling point the sources are read into their variables, and afterwards
  the variables of the controlled points are turned into commands to the host.  A tie that
  leads to nothing published breaks this exchange down.

  Everything is kept in catalogs: what is published is found by its names, an actuator by the
  point that it uses, and a sensor or internal variable by its source and its variable.
-/

import Erl.Cell
import Erl.Text.Line
import Erl.Store

namespace Erl

/-- A quantity that programs can control. -/
structure ControlPoint where
  componentType : String
  uniqueName : String
  controlType : String
  units : String
  storage : Storage
  cell : CellId
  /-- Whether a program's value is in force. -/
  overridden : Bool
  deriving Repr, DecidableEq

/-- A quantity that programs can read. -/
structure SourcePoint where
  quantity : String
  key : String
  units : String
  cell : CellId
  deriving Repr, DecidableEq

/-- A variable that is tied to the published point or source at a position. -/
structure Tie where
  name : String
  target : VariableId
  available : Nat
  deriving Repr, DecidableEq

/-- What a tie connects: a source and a variable. -/
def Tie.ends (tie : Tie) : Nat × VariableId :=
  (tie.available, tie.target)

/-- How much of what is available is listed. -/
inductive ListingDetail where
  | none
  /-- One line for all unique names of a kind. -/
  | withoutNames
  | verbose
  deriving Repr, DecidableEq

/-- The names of a catalog entry as one key. -/
def foldedKey (names : List String) : String :=
  "\x1f".intercalate (names.map fun name => Text.fold (Text.trimmed name))

/-- The key of a controlled point. -/
def ControlPoint.foldedKey (p : ControlPoint) : String :=
  Erl.foldedKey [p.componentType, p.uniqueName, p.controlType]

/-- The key of a source. -/
def SourcePoint.foldedKey (p : SourcePoint) : String :=
  Erl.foldedKey [p.quantity, p.key]

/-- What is done to a controlled point after a run. -/
inductive Command where
  | write (available : Nat) (x : Float)
  | release (available : Nat)
  /-- The variable of an actuator holds neither a number nor null. -/
  | refuse (actuator : String) (value : Value)
  deriving Repr, DecidableEq

/-- The catalogs of what is available and what is used. -/
structure Exchange where
  pointCatalog : Catalog ControlPoint.foldedKey
  actuatorCatalog : Catalog Tie.available
  outputCatalog : Catalog SourcePoint.foldedKey
  sensorCatalog : Catalog Tie.ends
  internalCatalog : Catalog SourcePoint.foldedKey
  internalVariableCatalog : Catalog Tie.ends
  deriving Repr, DecidableEq

namespace Exchange

/-- Nothing published. -/
def empty : Exchange := ⟨.empty, .empty, .empty, .empty, .empty, .empty⟩

/-- The points that can be controlled. -/
abbrev points (b : Exchange) : Array ControlPoint := b.pointCatalog.entries

/-- The variables that are tied to points. -/
abbrev actuators (b : Exchange) : Array Tie := b.actuatorCatalog.entries

/-- The outputs of the host. -/
abbrev outputs (b : Exchange) : Array SourcePoint := b.outputCatalog.entries

/-- The variables that are tied to outputs. -/
abbrev sensors (b : Exchange) : Array Tie := b.sensorCatalog.entries

/-- The internal variables of the host. -/
abbrev internals (b : Exchange) : Array SourcePoint := b.internalCatalog.entries

/-- The variables that are tied to internal variables of the host. -/
abbrev internalVariables (b : Exchange) : Array Tie := b.internalVariableCatalog.entries

/-! ## Publishing and finding -/

/-- The controlled point with these names. -/
def findPoint? (b : Exchange) (componentType uniqueName controlType : String) : Option Nat :=
  b.pointCatalog.find? (foldedKey [componentType, uniqueName, controlType])

/-- The output with these names. -/
def findOutput? (b : Exchange) (quantity key : String) : Option Nat :=
  b.outputCatalog.find? (foldedKey [quantity, key])

/-- The internal variable of the host with these names. -/
def findInternal? (b : Exchange) (quantity key : String) : Option Nat :=
  b.internalCatalog.find? (foldedKey [quantity, key])

/-- Publishes a controlled point.  The position is that of the point whose override the host
    has to respect: of an earlier one with the same names, if there is one. -/
def publishPoint (b : Exchange) (p : ControlPoint) : Nat × Exchange :=
  let (id, pointCatalog) := b.pointCatalog.enter p
  (id, { b with pointCatalog })

/-- Publishes an output. -/
def publishOutput (b : Exchange) (p : SourcePoint) : Exchange :=
  { b with outputCatalog := (b.outputCatalog.enter p).2 }

/-- Publishes an internal variable of the host. -/
def publishInternal (b : Exchange) (p : SourcePoint) : Exchange :=
  { b with internalCatalog := (b.internalCatalog.enter p).2 }

/-! ## Using -/

/-- The actuator that uses a controlled point. -/
def actuatorOf? (b : Exchange) (available : Nat) : Option Nat :=
  b.actuatorCatalog.find? available

/-- Ties a variable to a controlled point, unless the point is used already. -/
def tieActuator (b : Exchange) (tie : Tie) : Nat × Exchange :=
  let (id, actuatorCatalog) := b.actuatorCatalog.enter tie
  (id, { b with actuatorCatalog })

/-- Whether one of some ties connects a variable to a source. -/
def isTied (ties : Array Tie) (target : VariableId) (available : Nat) : Bool :=
  ties.any fun t => t.available == available && t.target == target

/-- Ties a variable to an output, unless it is tied to it already. -/
def tieSensor (b : Exchange) (tie : Tie) : Nat × Exchange :=
  let (id, sensorCatalog) := b.sensorCatalog.enter tie
  (id, { b with sensorCatalog })

/-- Ties a variable to an internal variable of the host, unless it is tied to it already. -/
def tieInternal (b : Exchange) (tie : Tie) : Nat × Exchange :=
  let (id, internalVariableCatalog) := b.internalVariableCatalog.enter tie
  (id, { b with internalVariableCatalog })

/-! ## Exchange with the host -/

/-- Copies a source into the variable that is tied to it. -/
def readTie (cells : Cells) (sources : Array SourcePoint) (t : Store) (tie : Tie) :
    Store :=
  match sources[tie.available]? with
  | some p => t.set tie.target (.number (cells.read p.cell))
  | none => t

/-- Copies all sensors and then all internal variables into their variables. -/
def refresh (b : Exchange) (cells : Cells) (t : Store) : Store :=
  b.internalVariables.foldl (readTie cells b.internals)
    (b.sensors.foldl (readTie cells b.outputs) t)

/-- Whether all ties among some lead to one of a number of published things. -/
def lead (ties : Array Tie) (published : Nat) : Bool :=
  ties.all fun tie => tie.available < published

/-- `refresh`, unless a tie leads nowhere. -/
def refresh? (b : Exchange) (cells : Cells) (t : Store) : Option Store :=
  if lead b.sensors b.outputs.size && lead b.internalVariables b.internals.size then
    some (b.refresh cells t)
  else none

/-- What the value of an actuator's variable asks of its point. -/
def command (t : Store) (tie : Tie) : Command :=
  match t.value tie.target with
  | .number x => .write tie.available x
  | .null => .release tie.available
  | v => .refuse tie.name v

/-- The commands of all actuators, in the order of the actuators. -/
def commands (b : Exchange) (t : Store) : List Command :=
  b.actuators.toList.map (command t)

/-- `commands`, unless an actuator leads nowhere. -/
def commands? (b : Exchange) (t : Store) : Option (List Command) :=
  if lead b.actuators b.points.size then some (b.commands t) else none

/-- Sets whether a program's value is in force at a point. -/
def setOverride (b : Exchange) (available : Nat) (on : Bool) : Exchange :=
  { b with pointCatalog :=
      b.pointCatalog.modify available (fun p => { p with overridden := on }) fun _ => rfl }

/-- How a host takes a number for the controlled point at a position. -/
abbrev Writer (H : Type) := Nat → ControlPoint → Float → H → H

/-- Carries out a command on a host: what is written is coerced to the storage of the point. -/
def performOn {H : Type} (write : Writer H) (state : Exchange × H) (c : Command) :
    Exchange × H :=
  let (b, host) := state
  match c with
  | .write available x =>
    match b.points[available]? with
    | some p => (b.setOverride available true, write available p (p.storage.coerce x) host)
    | none => (b, host)
  | .release available => (b.setOverride available false, host)
  | .refuse _ _ => (b, host)

/-- Carries out commands on a host. -/
def performAllOn {H : Type} (write : Writer H) (b : Exchange) (host : H) (cs : List Command) :
    Exchange × H :=
  cs.foldl (performOn write) (b, host)

/-- Writes a number to the cell of a point. -/
def writeCell : Writer Cells := fun _ p x cells =>
  cells.modify p.cell fun cell => cell.write x

/-- Carries out commands on cells. -/
def performAll (b : Exchange) (cells : Cells) (cs : List Command) : Exchange × Cells :=
  b.performAllOn writeCell cells cs

/-! ## Listings -/

/-- The lines of a list, each once, in the order of their first occurrence. -/
def distinct (lines : List String) : List String :=
  lines.foldl (fun seen line => if seen.contains line then seen else seen ++ [line]) []

/-- The lines of the controlled points. -/
def pointListing (b : Exchange) (level : ListingDetail) : List String :=
  let title := "EnergyManagementSystem:Actuator Available,"
  match level with
  | .none => []
  | .verbose => b.points.toList.map fun p =>
    title ++ p.uniqueName ++ "," ++ p.componentType ++ "," ++ p.controlType ++ "," ++ p.units
  | .withoutNames => distinct <| b.points.toList.map fun p =>
    title ++ " *," ++ p.componentType ++ "," ++ p.controlType ++ "," ++ p.units

/-- The lines of the internal variables of the host. -/
def internalListing (b : Exchange) (level : ListingDetail) : List String :=
  let title := "EnergyManagementSystem:InternalVariable Available,"
  match level with
  | .none => []
  | .verbose => b.internals.toList.map fun p =>
    title ++ p.key ++ "," ++ p.quantity ++ "," ++ p.units
  | .withoutNames => distinct <| b.internals.toList.map fun p =>
    title ++ " *," ++ p.quantity ++ "," ++ p.units

end Exchange

end Erl
