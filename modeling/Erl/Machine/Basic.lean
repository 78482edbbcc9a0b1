/-
  Erl.Machine.Basic

  Compiled programs, and the state in which they run.

  Expressions are nodes of one table; an operand that is an expression itself refers to a node
  that stands before its own.  What programs only read is the image, what they can change is
  the machine: the variables, the log and the generator of random numbers.
-/

import Erl.Code.Basic
import Erl.Settings
import Erl.Curve
import Erl.Log
import Erl.Machine.Operator
import Erl.Routine.Basic
import Erl.Trend

namespace Erl

/-- Position of a node in the table of nodes. -/
abbrev NodeId := Nat

/-- An operand of a node. -/
inductive Operand where
  | constant (l : Literal)
  | variableRef (id : VariableId)
  | trendRef (id : TrendId)
  | node (id : NodeId)
  deriving Repr, DecidableEq

/-- An operation on operands. -/
structure Node where
  operation : Operation
  operands : List Operand
  deriving Repr, DecidableEq

/-- Where a program may be run from. -/
inductive ProgramKind where
  /-- From calling points. -/
  | main
  /-- From other programs. -/
  | subroutine
  deriving Repr, DecidableEq

/-- A line that is ready to run. -/
abbrev ReadyLine := Line VariableId NodeId ProgramId

/-- A program or subroutine; it has no lines until it is compiled. -/
structure Program where
  name : String
  kind : ProgramKind
  source : String
  lines : Array ReadyLine
  deriving Repr

/-- What programs are told apart by. -/
def Program.foldedName (p : Program) : String :=
  Text.fold p.name

/-- What running programs only read. -/
structure Image where
  settings : Settings
  routines : Routines
  curves : CurveEvaluator
  trendCatalog : Catalog Trend.foldedName
  nodes : Array Node
  programCatalog : Catalog Program.foldedName

namespace Image

/-- The trends in the order of their declaration. -/
abbrev trends (img : Image) : Array Trend := img.trendCatalog.entries

/-- The programs and subroutines in the order of their declaration. -/
abbrev programs (img : Image) : Array Program := img.programCatalog.entries

/-- The program with a name, in any letter case. -/
def findProgram? (img : Image) (name : String) : Option ProgramId :=
  img.programCatalog.find? (Text.fold name)

/-- The trend with a name, in any letter case. -/
def findTrend? (img : Image) (name : String) : Option TrendId :=
  img.trendCatalog.find? (Text.fold name)

end Image

/-- What running programs can change. -/
structure Machine where
  store : Store
  log : Log
  generator : Generator

/-- What ends a run from within an expression. -/
inductive Interrupt where
  /-- A program asks for the end of all runs. -/
  | fatal (message : String)
  /-- A numeric routine broke down. -/
  | breakdown
  /-- An invocation took more steps than its limits allow. -/
  | outOfSteps
  deriving Repr, DecidableEq

/-- A computation on the machine that an interrupt can end. -/
abbrev Exec := EStateM Interrupt Machine

/-- Adds a message to the log. -/
def Exec.record (severity : Severity) (program message : String) : Exec Unit :=
  modify fun m => { m with log := m.log.record severity (some program) message }

end Erl
