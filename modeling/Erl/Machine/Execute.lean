/-
  Erl.Machine.Execute

  Running programs.

  An invocation walks the lines of a program with a cursor.  A guard that is not true makes it
  seek: it tries the guards of the `elseIf` lines of the block in turn, and goes on after the
  first that holds, after `else_`, or after `endIf`.  Entering the body of a loop takes one
  from the budget of the invocation; with no budget left a loop that would go on halts the
  program.  Subroutines may call one another to a limited depth, and one that is halted halts
  its callers.

  Each step is a function of the cursor and the budget.  The number of steps that an
  invocation may take is computed from its budget and its length.
-/

import Erl.Machine.Evaluate

namespace Erl

/-- How an invocation of a program ends. -/
inductive Ending where
  | normal
  | runawayLoop
  | recursionLimit
  | fatal
  deriving Repr, DecidableEq

/-- The wording of an end. -/
def Ending.text : Ending → String
  | normal => "normal"
  | runawayLoop => "runaway loop"
  | recursionLimit => "recursion limit"
  | fatal => "fatal"

/-- Where an invocation is. -/
inductive Cursor where
  /-- It comes to a line. -/
  | run (line : Nat)
  /-- A guard was not true, and the line is the next of its block. -/
  | seek (line : Nat)
  deriving Repr, DecidableEq

/-- What a step leads to. -/
inductive Progress where
  | next (budget : Nat) (cursor : Cursor)
  | halt (status : Ending)
  deriving Repr, DecidableEq

/-- Records a value that is an error, if that is asked for. -/
def reportError (img : Image) (p : Program) (line : ReadyLine) (v : Value) : Exec Unit :=
  match v with
  | .error message =>
    if img.settings.output.emsErrors then
      Exec.record .runtimeError p.name
        ("line " ++ Nat.repr line.location.line ++ ": " ++ message)
    else pure ()
  | _ => pure ()

/-- Traces a line, if that is asked for. -/
def noteLine (img : Image) (p : Program) (line : ReadyLine) (v : Option Value) : Exec Unit :=
  if img.settings.output.fullTrace then
    modify fun m =>
      { m with log := m.log.recordLine ⟨p.name, line.location.line, line.text, v⟩ }
  else pure ()

/-- Evaluates the expression of a line. -/
def evaluateLine (img : Image) (p : Program) (line : ReadyLine) (e : NodeId) :
    Exec Value := do
  let v ← img.evaluate p.name e
  reportError img p line v
  noteLine img p line (some v)
  return v

/-- Assigns a variable. -/
def assign (target : VariableId) (v : Value) : Exec Unit :=
  modify fun m => { m with store := m.store.set target v }

/-- Calls a subroutine, unless the depth is used up. -/
def callSubroutine (img : Image) (p : Program) (call : Option (ProgramId → Exec Ending))
    (callee : ProgramId) : Exec Ending := do
  match call with
  | some call => call callee
  | none =>
    Exec.record .severe p.name
      ("RUN nested deeper than " ++ Nat.repr img.settings.limits.depth ++ " levels; program halted")
    return .recursionLimit

/-- Enters the body of the loop at a line, unless the budget is used up. -/
def enterLoop (img : Image) (p : Program) (budget line : Nat) : Exec Progress := do
  match budget with
  | budget + 1 => return .next budget (.run (line + 1))
  | 0 =>
    Exec.record .severe p.name
      ("WHILE loop exceeded " ++ Nat.repr img.settings.limits.loopEntries
        ++ " iterations; program halted")
    return .halt .runawayLoop

/-- Runs the instruction of a line.  `call` runs a subroutine; without it the depth is used
    up. -/
def runLine (img : Image) (p : Program) (call : Option (ProgramId → Exec Ending))
    (budget index : Nat) (line : ReadyLine) : Exec Progress := do
  match line.instruction with
  | .set target e =>
    let v ← evaluateLine img p line e
    assign target v
    return .next budget (.run (index + 1))
  | .run callee =>
    noteLine img p line none
    match ← callSubroutine img p call callee with
    | .normal => return .next budget (.run (index + 1))
    | status => return .halt status
  | .return_ =>
    noteLine img p line none
    return .halt .normal
  | .if_ e next =>
    let v ← evaluateLine img p line e
    return .next budget (if v.holds then .run (index + 1) else .seek next)
  | .elseIf _ _ stop => return .next budget (.run stop)
  | .else_ stop => return .next budget (.run stop)
  | .endIf => return .next budget (.run (index + 1))
  | .while_ e stop =>
    let v ← evaluateLine img p line e
    if v.holds then enterLoop img p budget index
    else return .next budget (.run (stop + 1))
  | .endWhile start => return .next budget (.run start)

/-- Tries the branch at a line. -/
def seekLine (img : Image) (p : Program) (budget index : Nat) : Exec Progress := do
  match p.lines[index]? with
  | some line =>
    match line.instruction with
    | .elseIf e next _ =>
      let v ← evaluateLine img p line e
      return .next budget (if v.holds then .run (index + 1) else .seek next)
    | _ => return .next budget (.run (index + 1))
  | none => return .next budget (.run (index + 1))

/-- One step; an invocation that has come past the last line ends. -/
def step (img : Image) (p : Program) (call : Option (ProgramId → Exec Ending))
    (budget : Nat) (cursor : Cursor) : Exec Progress :=
  match cursor with
  | .run index =>
    match p.lines[index]? with
    | some line => runLine img p call budget index line
    | none => pure (.halt .normal)
  | .seek index => seekLine img p budget index

/-- Steps until the invocation ends. -/
def walk (img : Image) (p : Program) (call : Option (ProgramId → Exec Ending)) :
    Nat → Nat → Cursor → Exec Ending
  | 0, _, _ => throw .outOfSteps
  | steps + 1, budget, cursor => do
    match ← step img p call budget cursor with
    | .next budget cursor => walk img p call steps budget cursor
    | .halt status => return status

/-- How many steps an invocation may take.  Between two entries of a loop a line takes at
    most two: a loop that ends goes back to its start and from there past its end. -/
def allowance (budget length : Nat) : Nat :=
  (budget + 1) * (2 * length + 3)

/-- One invocation of a program, from its first line on. -/
def Image.start (img : Image) (call : Option (ProgramId → Exec Ending)) (id : ProgramId) :
    Exec Ending :=
  match img.programs[id]? with
  | none => pure .normal
  | some p =>
    let budget := img.settings.limits.loopEntries
    walk img p call (allowance budget p.lines.size) budget (.run 0)

/-- One invocation of a program that may call subroutines to a depth. -/
def Image.invoke (img : Image) : Nat → ProgramId → Exec Ending
  | 0 => img.start none
  | depth + 1 => img.start (some (img.invoke depth))

/-- Runs a program from a calling point. -/
def Image.runMain (img : Image) (id : ProgramId) : Exec Ending :=
  img.invoke img.settings.limits.depth id

end Erl
