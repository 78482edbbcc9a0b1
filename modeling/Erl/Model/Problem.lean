/-
  Erl.Model.Problem

  What can be wrong with a model.

  Every refused declaration and every problem of the compilation is recorded, so that all of
  them can be reported together.
-/

import Erl.Expr.Fault
import Erl.Name

namespace Erl

/-- What a name is declared for. -/
inductive Entity where
  | globalVariable
  | curveIndexVariable
  | constructionIndexVariable
  | program
  | subroutine
  | actuator
  | sensor
  | internalVariable
  | trend
  deriving Repr, DecidableEq

/-- How messages speak of what a name is declared for. -/
def Entity.label : Entity → String
  | globalVariable => "global variable"
  | curveIndexVariable => "curve index variable"
  | constructionIndexVariable => "construction index variable"
  | program => "program"
  | subroutine => "subroutine"
  | actuator => "actuator"
  | sensor => "sensor"
  | internalVariable => "internal variable"
  | trend => "trend"

/-- Among what a name has to be unique. -/
inductive NameSpace where
  | variableNames
  | programNames
  | trendNames
  deriving Repr, DecidableEq

/-- How messages speak of the holder of a name. -/
def NameSpace.label : NameSpace → String
  | variableNames => "variable"
  | programNames => "program or subroutine"
  | trendNames => "trend"

/-- A problem of a model. -/
inductive ModelProblem where
  | invalidName (entity : Entity) (name : String) (flaw : NameFlaw)
  | duplicateName (space : NameSpace) (name : String)
  | parse (program : String) (error : SyntaxError)
  | readOnlyAssignment (program name : String) (line : Nat)
  | trendAssignment (program name : String) (line : Nat)
  | unknownSubroutine (program name : String) (line : Nat)
  | unknownProgram (name : String)
  | subroutineAtCallingPoint (name : String)
  | unknownCallingPoint (name : String)
  | actuatorNotFound (componentType uniqueName controlType : String)
  | actuatorNameConflict (existing requested : String)
  | sensorNotFound (quantity key : String)
  | internalVariableNotFound (quantity key : String)
  | curveNotFound (name : String)
  | constructionNotFound (name : String)
  | unknownTrendVariable (trend name : String)
  | emptyTrend (name : String)
  deriving Repr, DecidableEq

namespace ModelProblem

/-- A text in double quotes. -/
def quoted (s : String) : String :=
  "\"" ++ s ++ "\""

/-- Where in a program a problem is. -/
def place (program : String) (line : Nat) : String :=
  "in " ++ program ++ " at line " ++ Nat.repr line ++ ": "

/-- The wording of a problem. -/
def message : ModelProblem → String
  | invalidName entity name flaw =>
    "invalid " ++ entity.label ++ " name " ++ quoted name ++ ": " ++ flaw.message
  | duplicateName space name => "duplicate " ++ space.label ++ " name " ++ quoted name
  | parse program error => "in " ++ program ++ ": " ++ error.message
  | readOnlyAssignment program name line =>
    place program line ++ "cannot SET read-only variable " ++ quoted name
  | trendAssignment program name line => place program line ++ "cannot SET trend " ++ quoted name
  | unknownSubroutine program name line =>
    place program line ++ "RUN target " ++ quoted name ++ " is not a registered subroutine"
  | unknownProgram name => "program " ++ quoted name ++ " is not registered"
  | subroutineAtCallingPoint name =>
    quoted name ++ " is a subroutine and cannot be bound to a calling point"
  | unknownCallingPoint name => "unknown calling point " ++ quoted name
  | actuatorNotFound componentType uniqueName controlType =>
    "no actuator available for " ++ componentType ++ " / " ++ uniqueName ++ " / " ++ controlType
  | actuatorNameConflict existing requested =>
    "actuator already used by variable " ++ quoted existing ++ ", cannot also bind "
      ++ quoted requested
  | sensorNotFound quantity key =>
    "no output variable " ++ quoted quantity ++ " with key " ++ quoted key
  | internalVariableNotFound quantity key =>
    "no internal variable " ++ quantity ++ " / " ++ key
  | curveNotFound name => "no curve named " ++ quoted name
  | constructionNotFound name => "no construction named " ++ quoted name
  | unknownTrendVariable trend name =>
    "trend " ++ quoted trend ++ " refers to unknown global variable " ++ quoted name
  | emptyTrend name => "trend " ++ quoted name ++ " must keep at least one sample"

/-- Whether a problem is found by compiling rather than by declaring. -/
def isFoundByCompiling : ModelProblem → Bool
  | parse .. | readOnlyAssignment .. | trendAssignment .. | unknownSubroutine .. => true
  | _ => false

end ModelProblem

/-- All problems found so far, in the order in which they were found. -/
abbrev ProblemReport := List ModelProblem

/-- The wording of a report: a count and a line for each problem. -/
def ProblemReport.message (report : ProblemReport) : String :=
  report.foldl (fun text e => text ++ "\n  " ++ e.message)
    (Nat.repr report.length ++ " setup error(s)")

end Erl
