/-
  Erl.Proofs.Machine.Structured

  Running programs as trees.

  A block runs its statements in order.  A branch runs the body of the first guard that holds,
  with the guards tried in order, and its `else_` body when none of them does.  A loop tests its
  guard before every body.  `return_` ends the invocation, and `run` runs the tree of the
  subroutine.  One budget counts the bodies of all loops of an invocation: what a statement
  leaves of it goes to the next.

  Nothing here knows of lines, targets or nodes.
-/

import Erl.Proofs.Code.Block
import Erl.Proofs.Machine.Compiled
import Erl.Machine.Execute

namespace Erl

/-- How a part of a program ends that may enter the bodies of loops a number of times. -/
inductive Flow (budget : Nat) where
  /-- It comes to its end, with some of the budget left. -/
  | through (left : Nat) (le : left ≤ budget)
  /-- It ends the invocation. -/
  | halt (status : Ending)

/-- What ends within a budget ends within a larger one. -/
def Flow.mono {b b' : Nat} (h : b ≤ b') : Flow b → Flow b'
  | through left le => through left (Nat.le_trans le h)
  | halt status => halt status

/-- One part after another, which gets what the first leaves of the budget. -/
def Flow.andThen {b : Nat} (x : Exec (Flow b)) (k : (left : Nat) → Exec (Flow left)) :
    Exec (Flow b) := do
  match ← x with
  | .through left le => return (← k left).mono le
  | .halt status => return .halt status

/-- An invocation of a program: the model, what names stand for in the program, its title, and
    what runs a subroutine unless the depth is used up. -/
structure Frame where
  img : Image
  names : Naming
  title : String
  call : Option (ProgramId → Exec Ending)

namespace Frame

/-- Records a value that is an error, if that is asked for. -/
def report (f : Frame) (mark : Mark) (v : Value) : Exec Unit :=
  match v with
  | .error message =>
    if f.img.settings.output.emsErrors then
      Exec.record .runtimeError f.title
        ("line " ++ Nat.repr mark.location.line ++ ": " ++ message)
    else pure ()
  | _ => pure ()

/-- Traces a statement, if that is asked for. -/
def note (f : Frame) (mark : Mark) (v : Option Value) : Exec Unit :=
  if f.img.settings.output.fullTrace then
    modify fun m =>
      { m with log := m.log.recordLine ⟨f.title, mark.location.line, mark.text, v⟩ }
  else pure ()

/-- The value of the expression of a statement. -/
def value (f : Frame) (mark : Mark) (e : Expr) : Exec Value := do
  let v ← e.meaning f.img f.names f.title
  f.report mark v
  f.note mark (some v)
  return v

/-- Assigns the variable that a name stands for. -/
def assign (f : Frame) (name : String) (v : Value) : Exec Unit :=
  match f.names.resolve? name with
  | some (.variableAt id) => modify fun m => { m with store := m.store.set id v }
  | _ => pure ()

/-- Runs the subroutine with a name, unless the depth is used up. -/
def runSubroutine (f : Frame) (name : String) : Exec Ending :=
  match f.call, subroutineNamed? f.img.programs name with
  | some call, some id => call id
  | some _, none => pure .normal
  | none, _ => do
    Exec.record .severe f.title
      ("RUN nested deeper than " ++ Nat.repr f.img.settings.limits.depth
        ++ " levels; program halted")
    return .recursionLimit

/-- Runs a plain statement, which may end the invocation. -/
def plain (f : Frame) (mark : Mark) : Plain → Exec (Option Ending)
  | .set target value => do
    f.assign target (← f.value mark value)
    return none
  | .run subroutine => do
    f.note mark none
    match ← f.runSubroutine subroutine with
    | .normal => return none
    | status => return some status
  | .return_ => do
    f.note mark none
    return some .normal

/-- Ends an invocation whose loops have used up the budget. -/
def endRunaway (f : Frame) : Exec Ending := do
  Exec.record .severe f.title
    ("WHILE loop exceeded " ++ Nat.repr f.img.settings.limits.loopEntries
      ++ " iterations; program halted")
  return .runawayLoop

/-- Runs a body as long as a guard holds; each body takes one from the budget. -/
def iterate (f : Frame) (mark : Mark) (guard : Expr) (body : (b : Nat) → Exec (Flow b)) :
    (budget : Nat) → Exec (Flow budget)
  | 0 => do
    if (← f.value mark guard).holds then return .halt (← f.endRunaway)
    return .through 0 (Nat.le_refl 0)
  | budget + 1 => do
    if (← f.value mark guard).holds then
      match ← body budget with
      | .through left le =>
        return (← f.iterate mark guard body left).mono (Nat.le_succ_of_le le)
      | .halt status => return .halt status
    else return .through (budget + 1) (Nat.le_refl (budget + 1))
termination_by budget => budget
decreasing_by exact Nat.lt_succ_of_le le

end Frame

mutual

/-- Runs a block. -/
def Block.exec (f : Frame) : Block → (budget : Nat) → Exec (Flow budget)
  | .done, budget => return .through budget (Nat.le_refl budget)
  | .plain mark s rest, budget => do
    match ← f.plain mark s with
    | none => rest.exec f budget
    | some status => return .halt status
  | .branch mark guard body arms rest, budget =>
    Flow.andThen
      (do if (← f.value mark guard).holds then body.exec f budget else arms.exec f budget)
      (rest.exec f)
  | .loop mark guard body _ rest, budget =>
    Flow.andThen (f.iterate mark guard (body.exec f) budget) (rest.exec f)

/-- Runs the arms of a branch whose guards so far do not hold. -/
def Arms.exec (f : Frame) : Arms → (budget : Nat) → Exec (Flow budget)
  | .endIf _, budget => return .through budget (Nat.le_refl budget)
  | .else_ _ body _, budget => body.exec f budget
  | .elseIf mark guard body more, budget => do
    if (← f.value mark guard).holds then body.exec f budget else more.exec f budget

end

/-- Runs the tree of a program from its first statement on. -/
def Block.run (f : Frame) (tree : Block) : Exec Ending := do
  match ← tree.exec f f.img.settings.limits.loopEntries with
  | .through _ _ => return .normal
  | .halt status => return status

/-- Runs programs by their trees, with subroutines to a depth. -/
def Image.interpret (img : Image) (names : ProgramId → Naming) (trees : ProgramId → Block)
    (depth : Nat) (id : ProgramId) : Exec Ending :=
  match img.programs[id]? with
  | none => pure .normal
  | some p =>
    let call := match depth with
      | 0 => none
      | depth + 1 => some (img.interpret names trees depth)
    (trees id).run ⟨img, names id, p.name, call⟩

end Erl
