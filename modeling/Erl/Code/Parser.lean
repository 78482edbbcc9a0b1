/-
  Erl.Code.Parser

  Reading programs and matching their blocks.

  Each line that is neither blank nor a comment holds one statement.  The blocks that are
  open form a stack; when a block goes on or ends, the targets that waited for that line are
  filled in.  The first fault in the order of the lines is reported, and within a line a
  misplaced block keyword comes before anything that follows the statement.
-/

import Erl.Code.Statement

namespace Erl

/-- A block that is still open, with the indices of the lines that wait for a target. -/
inductive OpenBlock where
  /-- The last guard, the `elseIf` and `else_` lines, and whether there was an `else_`. -/
  | branch (guard : Option Nat) (branches : List Nat) (sawElse : Bool) (opened : Location)
  | loop (start : Nat) (opened : Location)
  deriving Repr

/-- The kind of an open block. -/
def OpenBlock.kind : OpenBlock → BlockKind
  | branch .. => .branch
  | loop .. => .loop

/-- Where an open block starts. -/
def OpenBlock.opened : OpenBlock → Location
  | branch _ _ _ opened => opened
  | loop _ opened => opened

namespace Instruction

/-- Fills in where a guard that is not true goes. -/
def withNext {τ ε σ : Type} (target : Nat) : Instruction τ ε σ → Instruction τ ε σ
  | if_ c _ => if_ c target
  | elseIf c _ stop => elseIf c target stop
  | i => i

/-- Fills in where a branch or a loop ends. -/
def withStop {τ ε σ : Type} (target : Nat) : Instruction τ ε σ → Instruction τ ε σ
  | elseIf c next _ => elseIf c next target
  | else_ _ => else_ target
  | while_ c _ => while_ c target
  | i => i

end Instruction

/-- The lines read so far and the blocks still open, the innermost first. -/
structure CodeBuilder where
  lines : Array SourceLine
  blocks : List OpenBlock

namespace CodeBuilder

/-- Nothing read yet. -/
def empty : CodeBuilder := ⟨#[], []⟩

/-- Changes the instruction of the line at an index. -/
def patch (lines : Array SourceLine) (index : Nat)
    (change : Instruction String Expr String → Instruction String Expr String) :
    Array SourceLine :=
  lines.modify index fun line => { line with instruction := change line.instruction }

/-- Fills in the target of the guard that waits for one, if any does. -/
def patchGuard (lines : Array SourceLine) (guard : Option Nat) (target : Nat) :
    Array SourceLine :=
  match guard with
  | some index => patch lines index (·.withNext target)
  | none => lines

/-- Fills in the end of all branches of a block. -/
def patchBranches (lines : Array SourceLine) (branches : List Nat) (target : Nat) :
    Array SourceLine :=
  branches.foldl (fun lines index => patch lines index (·.withStop target)) lines

/-- Goes on with another branch at line `index`. -/
def nextBranch (b : CodeBuilder) (index : Nat) (k : Keyword) (location : Location) :
    Except SyntaxError CodeBuilder :=
  match b.blocks with
  | .branch guard branches sawElse opened :: outer =>
    if sawElse then .error ⟨.afterElse k, location⟩
    else
      let isElse := k == .else_
      .ok ⟨patchGuard b.lines guard index,
        .branch (if isElse then none else some index) (branches ++ [index]) isElse opened
          :: outer⟩
  | _ => .error ⟨.outsideBranch k, location⟩

/-- Ends the innermost block, a branch, at line `index`. -/
def closeBranch (b : CodeBuilder) (index : Nat) (location : Location) :
    Except SyntaxError CodeBuilder :=
  match b.blocks with
  | .branch guard branches _ _ :: outer =>
    .ok ⟨patchBranches (patchGuard b.lines guard index) branches index, outer⟩
  | block :: _ => .error ⟨.wrongCloser .branch block.kind, location⟩
  | [] => .error ⟨.unopened .branch, location⟩

/-- Ends the innermost block, a loop, at line `index`; the index of its start comes with the
    result. -/
def closeLoop (b : CodeBuilder) (index : Nat) (location : Location) :
    Except SyntaxError (CodeBuilder × Nat) :=
  match b.blocks with
  | .loop start _ :: outer => .ok (⟨patch b.lines start (·.withStop index), outer⟩, start)
  | block :: _ => .error ⟨.wrongCloser .loop block.kind, location⟩
  | [] => .error ⟨.unopened .loop, location⟩

/-- Adds the instruction of the next line. -/
def push (b : CodeBuilder) (location : Location) (text : String)
    (i : Instruction String Expr String) : CodeBuilder :=
  { b with lines := b.lines.push ⟨location, text, i⟩ }

/-- Opens a block. -/
def enter (b : CodeBuilder) (block : OpenBlock) : CodeBuilder :=
  { b with blocks := block :: b.blocks }

/-- Adds the statement of the next line; targets that are not known yet stay zero. -/
def add (b : CodeBuilder) (location : Location) (text : String) (s : Statement) :
    Except SyntaxError CodeBuilder :=
  let index := b.lines.size
  match s with
  | .set target value => .ok (b.push location text (.set target value))
  | .run subroutine => .ok (b.push location text (.run subroutine))
  | .return_ => .ok (b.push location text .return_)
  | .if_ condition =>
    .ok ((b.enter (.branch (some index) [] false location)).push location text
      (.if_ condition 0))
  | .elseIf condition =>
    (b.nextBranch index .elseIf location).map fun b =>
      b.push location text (.elseIf condition 0 0)
  | .else_ => (b.nextBranch index .else_ location).map fun b => b.push location text (.else_ 0)
  | .endIf => (b.closeBranch index location).map fun b => b.push location text .endIf
  | .while_ condition =>
    .ok ((b.enter (.loop index location)).push location text (.while_ condition 0))
  | .endWhile =>
    (b.closeLoop index location).map fun (b, start) => b.push location text (.endWhile start)

/-- Adds the line of a source text with a given number, which is trimmed and not blank. -/
def addLine (b : CodeBuilder) (number : Nat) (text : List Char) :
    Except SyntaxError CodeBuilder :=
  match LexedLine.read text number with
  | .error e => .error (.ofLexical e)
  | .ok line =>
    match Statement.read line.stop line.lexemes with
    | .error e => .error e
    | .ok (s, rest) =>
      match b.add ⟨number, 1⟩ (String.ofList text) s with
      | .error e => .error e
      | .ok b =>
        match rest with
        | [] => .ok b
        | rest => Parser.fail line.stop rest .afterStatement

/-- Whether a trimmed line is left out: it is blank or a comment. -/
def skips (text : List Char) : Bool :=
  text.isEmpty || text.head? == some '!'

/-- Adds the lines of a source text, the first of which has a given number. -/
def addLines (b : CodeBuilder) (number : Nat) : List (List Char) → Except SyntaxError CodeBuilder
  | [] => .ok b
  | raw :: others =>
    let text := Text.trim raw
    if skips text then b.addLines (number + 1) others
    else
      match b.addLine number text with
      | .error e => .error e
      | .ok b => b.addLines (number + 1) others

/-- The finished list, if no block is open. -/
def finish (b : CodeBuilder) : Except SyntaxError (Array SourceLine) :=
  match b.blocks with
  | [] => .ok b.lines
  | block :: _ => .error ⟨.unclosed block.kind, block.opened⟩

end CodeBuilder

/-- The instructions of a program or subroutine. -/
def parseCode (source : String) : Except SyntaxError (Array SourceLine) :=
  match CodeBuilder.empty.addLines 1 (Text.lines source.toList) with
  | .error e => .error e
  | .ok b => b.finish

end Erl
