/-
  Erl.Controller.Run

  Running the programs of a calling point.

  Sources are read into their variables, the programs run in the order in which they were
  bound, the actuators are carried out and the trends take a sample.  A program that is halted
  by a limit does not keep the next one from running.  A fatal halt ends the run at once and
  all later ones; nothing is written to the host then.  Where no program is bound nothing
  happens at all.
-/

import Erl.Controller.Declare

namespace Erl

/-- How a program of a calling point ended. -/
structure Outcome where
  program : String
  status : Ending
  deriving Repr, DecidableEq

/-- Why a calling point has no regular end. -/
inductive RunError where
  | fatalHalt (program message : String) (outcomes : List Outcome)
  | terminated
  | notCompiled
  /-- A numeric routine or the exchange with the host broke down. -/
  | breakdown
  /-- A program took more steps than its limits allow. -/
  | outOfSteps
  deriving Repr, DecidableEq

/-- The wording of an error. -/
def RunError.message : RunError → String
  | fatalHalt program message _ => "fatal halt requested by " ++ program ++ ": " ++ message
  | terminated => "the run was terminated by an earlier fatal halt"
  | notCompiled => "programs must compile without errors before they can run"
  | breakdown => "a numeric routine or the exchange with the host broke down"
  | outOfSteps => "a program took more steps than its limits allow"

/-- The name of a program. -/
def Image.programName (img : Image) (id : ProgramId) : String :=
  ((img.programs[id]?).map Program.name).getD ""

/-- Runs programs in order.  The outcomes are those up to the one that ended the run, which
    comes with its interrupt. -/
def Image.runAll (img : Image) (m : Machine) :
    List ProgramId → List Outcome × Option (String × Interrupt) × Machine
  | [] => ([], none, m)
  | id :: rest =>
    let name := img.programName id
    match img.runMain id m with
    | .ok status m =>
      let (outcomes, stopped, m) := img.runAll m rest
      (⟨name, status⟩ :: outcomes, stopped, m)
    | .error interrupt m => ([⟨name, .fatal⟩], some (name, interrupt), m)

namespace Controller

/-- Adds the value of a trend's variable to its history, if it is a number. -/
def sampleTrend (store : Store) (t : Trend) : Trend :=
  match store.value t.source with
  | .number x => { t with history := t.history.log x }
  | _ => t

/-- A trend keeps its name when it takes a sample. -/
theorem foldedName_sampleTrend (store : Store) (t : Trend) :
    (sampleTrend store t).foldedName = t.foldedName := by
  unfold sampleTrend
  split <;> rfl

/-- The log with a message for each command that was refused. -/
def reportRefused (log : Log) (cs : List Command) : Log :=
  cs.foldl
    (fun log command => match command with
      | .refuse actuator v =>
        log.record .runtimeError none
          ("actuator " ++ actuator ++ " holds " ++ v.display ++ " and was not written")
      | _ => log)
    log

/-- Carries out commands to the host and samples the trends. -/
def finishRun (c : Controller) (commands : List Command) : Controller :=
  let (exchange, cells) := c.exchange.performAll c.cells commands
  let log := if c.image.settings.output.emsErrors then reportRefused c.machine.log commands
    else c.machine.log
  { c with
    image := { c.image with
      trendCatalog := c.image.trendCatalog.map (sampleTrend c.machine.store)
        (foldedName_sampleTrend c.machine.store) }
    machine := { c.machine with log }
    exchange
    cells }

/-- Runs programs on refreshed variables, and ends the run as they end. -/
def runPrograms (c : Controller) (store : Store) (programs : List ProgramId) :
    Except RunError (List Outcome) × Controller :=
  let (outcomes, stopped, machine) := c.image.runAll { c.machine with store } programs
  match stopped with
  | none =>
    match c.exchange.commands? machine.store with
    | some commands => (.ok outcomes, { c with machine }.finishRun commands)
    | none => (.error .breakdown, { c with machine })
  | some (program, .fatal message) =>
    (.error (.fatalHalt program message outcomes), { c with machine, terminated := true })
  | some (_, .breakdown) => (.error .breakdown, { c with machine })
  | some (_, .outOfSteps) => (.error .outOfSteps, { c with machine })

/-- Runs the programs of a calling point. -/
def run (c : Controller) (point : CallingPoint) : Except RunError (List Outcome) × Controller :=
  if c.terminated then (.error .terminated, c)
  else if !c.compiled then (.error .notCompiled, c)
  else
    match c.schedule.programs point with
    | [] => (.ok [], c)
    | programs =>
      match c.exchange.refresh? c.cells c.machine.store with
      | some store => c.runPrograms store programs
      | none => (.error .breakdown, c)

end Controller

end Erl
