/-
  Erl.Controller.Lowering

  Compiling programs.

  Names are resolved against the complete model: inside a program a name is a local of it, else
  a global, else a trend.  Assigning an unknown name creates a local; so does reading one, with
  a warning.  The first argument of a trend function names a trend before anything else.
  Read-only variables and trends cannot be assigned, and only subroutines can be called.

  Compiling again starts from the sources and forgets the problems of the last time.
-/

import Erl.Code.Parser
import Erl.Controller.Declare

namespace Erl

/-- What compiling changes besides the lines of programs. -/
structure Lowering where
  store : Store
  log : Log
  nodes : Array Node
  deriving Repr

/-- A computation that lowers source to compiled code. -/
abbrev Lower := StateM Lowering

/-- The program that is compiled, and what its names are resolved against. -/
structure Site where
  trendCatalog : Catalog Trend.foldedName
  programCatalog : Catalog Program.foldedName
  program : ProgramId
  name : String

namespace Lower

/-- Adds a node. -/
def push (n : Node) : Lower NodeId :=
  modifyGet fun s => (s.nodes.size, { s with nodes := s.nodes.push n })

/-- The local of a program with a name. -/
def ensureLocal (program : ProgramId) (name : String) : Lower VariableId :=
  modifyGet fun s =>
    let (id, store) := s.store.ensureLocal program name
    (id, { s with store })

end Lower

namespace Site

/-- The trends of the model. -/
abbrev trends (site : Site) : Array Trend := site.trendCatalog.entries

/-- The programs and subroutines of the model. -/
abbrev programs (site : Site) : Array Program := site.programCatalog.entries

/-- The trend with a name. -/
def trend? (site : Site) (name : String) : Option TrendId :=
  site.trendCatalog.find? (Text.fold name)

/-- The program or subroutine with a name. -/
def program? (site : Site) (name : String) : Option ProgramId :=
  site.programCatalog.find? (Text.fold name)

/-- Warns about a name that is not defined. -/
def warnUndefined (site : Site) (name : String) (line : Nat) : Lower Unit :=
  let message := "line " ++ Nat.repr line ++ ": \"" ++ name
    ++ "\" is not defined; treating it as a local variable"
  modify fun s => { s with log := s.log.record .warning (some site.name) message }

/-- What a name stands for. -/
def lowerName (site : Site) (name : String) (location : Location) : Lower Operand := do
  match (← get).store.lookup? site.program name with
  | some id => return .variableRef id
  | none =>
    match site.trend? name with
    | some id => return .trendRef id
    | none =>
      site.warnUndefined name location.line
      return .variableRef (← Lower.ensureLocal site.program name)

/-- The trend that the first argument of a function names, if the function is one of
    trends. -/
def trendArgument? (site : Site) (f : Builtin) (arg : Expr) : Option TrendId :=
  match f, arg with
  | .trend _, .name name _ => site.trend? name
  | _, _ => none

mutual

/-- Lowers an expression to an operand. -/
def lower (site : Site) : Expr → Lower Operand
  | .literal l => pure (.constant l)
  | .name name location => site.lowerName name location
  | .negate e => do
    let o ← site.lower e
    return .node (← Lower.push ⟨.negate, [o]⟩)
  | .binary op a b => do
    let left ← site.lower a
    let right ← site.lower b
    return .node (← Lower.push ⟨.binary op, [left, right]⟩)
  | .call f args _ => do
    let operands ← site.lowerArguments f args
    return .node (← Lower.push ⟨.call f, operands⟩)

/-- Lowers the arguments of a function. -/
def lowerArguments (site : Site) (f : Builtin) : List Expr → Lower (List Operand)
  | [] => pure []
  | arg :: rest => do
    let first ← match site.trendArgument? f arg with
      | some id => pure (.trendRef id)
      | none => site.lower arg
    return first :: (← site.lowerAll rest)

/-- Lowers expressions from left to right. -/
def lowerAll (site : Site) : List Expr → Lower (List Operand)
  | [] => pure []
  | e :: rest => do
    let first ← site.lower e
    return first :: (← site.lowerAll rest)

end

/-- Lowers an expression to a node; an operand alone becomes a node that reads it. -/
def lowerWhole (site : Site) (e : Expr) : Lower NodeId := do
  match ← site.lower e with
  | .node id => return id
  | o => Lower.push ⟨.literal, [o]⟩

/-- The variable that an assignment changes. -/
def lowerTarget (site : Site) (name : String) (line : Nat) :
    Lower (Except ModelProblem VariableId) := do
  let store := (← get).store
  match store.lookup? site.program name with
  | some id =>
    if store.isProtected id then return .error (.readOnlyAssignment site.name name line)
    else return .ok id
  | none =>
    if (site.trend? name).isSome then
      return .error (.trendAssignment site.name name line)
    else return .ok (← Lower.ensureLocal site.program name)

/-- The subroutine that a call runs. -/
def lowerCallee (site : Site) (name : String) (line : Nat) : Except ModelProblem ProgramId :=
  match site.program? name with
  | none => .error (.unknownSubroutine site.name name line)
  | some id =>
    match (site.programs[id]?).map Program.kind with
    | some .subroutine => .ok id
    | _ => .error (.unknownSubroutine site.name name line)

/-- Lowers an instruction; its jump targets stay. -/
def lowerInstruction (site : Site) (line : Nat) :
    Instruction String Expr String →
      Lower (Except ModelProblem (Instruction VariableId NodeId ProgramId))
  | .set name value => do
    match ← site.lowerTarget name line with
    | .error problem => return .error problem
    | .ok target => return .ok (.set target (← site.lowerWhole value))
  | .run name => return (site.lowerCallee name line).map .run
  | .return_ => return .ok .return_
  | .if_ condition next => return .ok (.if_ (← site.lowerWhole condition) next)
  | .elseIf condition next stop =>
    return .ok (.elseIf (← site.lowerWhole condition) next stop)
  | .else_ stop => return .ok (.else_ stop)
  | .endIf => return .ok .endIf
  | .while_ condition stop => return .ok (.while_ (← site.lowerWhole condition) stop)
  | .endWhile start => return .ok (.endWhile start)

/-- Lowers lines one after another; a line with a problem does not keep the others from being
    lowered. -/
def lowerLines (site : Site) : List SourceLine → Lower (List ReadyLine × List ModelProblem)
  | [] => pure ([], [])
  | line :: rest => do
    let result ← site.lowerInstruction line.location.line line.instruction
    let (lines, problems) ← site.lowerLines rest
    match result with
    | .ok instruction => return (⟨line.location, line.text, instruction⟩ :: lines, problems)
    | .error problem => return (lines, problem :: problems)

/-- Compiles the source of the program; with a problem it has no lines. -/
def compile (site : Site) (source : String) :
    Lower (Array ReadyLine × List ModelProblem) := do
  match parseCode source with
  | .error e => return (#[], [.parse site.name e])
  | .ok lines =>
    let (compiled, problems) ← site.lowerLines lines.toList
    if problems.isEmpty then return (compiled.toArray, []) else return (#[], problems)

end Site

namespace Controller

/-- Compiles programs one after another, from that with a given position on. -/
def compilePrograms (trends : Catalog Trend.foldedName) (all : Catalog Program.foldedName) :
    ProgramId → List Program → Lower (List Program × List ModelProblem)
  | _, [] => pure ([], [])
  | id, p :: rest => do
    let (lines, problems) ← Site.compile ⟨trends, all, id, p.name⟩ p.source
    let (programs, others) ← compilePrograms trends all (id + 1) rest
    return ({ p with lines } :: programs, problems ++ others)

/-- Programs keep their names when they are compiled. -/
theorem foldedName_compilePrograms (trends : Catalog Trend.foldedName)
    (all : Catalog Program.foldedName) (id : ProgramId) (programs : List Program) (s : Lowering) :
    ((compilePrograms trends all id programs).run s).1.1.map Program.foldedName
      = programs.map Program.foldedName := by
  induction programs generalizing id s with
  | nil => rfl
  | cons p rest ih => exact congrArg (p.foldedName :: ·) (ih _ _)

/-- Compiles all programs.  The controller can run if no problem is left. -/
def compile (c : Controller) : Controller :=
  let start : Lowering := ⟨c.machine.store, c.machine.log, #[]⟩
  let result := (compilePrograms c.image.trendCatalog c.image.programCatalog 0
    c.image.programs.toList).run start
  let problems := c.problems.filter (!·.isFoundByCompiling) ++ result.1.2
  { c with
    image := { c.image with
      nodes := result.2.nodes
      programCatalog := c.image.programCatalog.update result.1.1.toArray (by
        rw [List.map_toArray, foldedName_compilePrograms, ← Array.toList_map,
          Array.toArray_toList]) }
    machine := { c.machine with store := result.2.store, log := result.2.log }
    problems
    compiled := problems.isEmpty }

/-- What the host is told after compiling: all problems that are left, if there are any. -/
def verdict (c : Controller) : Except ProblemReport Unit :=
  if c.compiled then .ok () else .error c.problems

end Controller

end Erl
