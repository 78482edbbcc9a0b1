/-
  Erl.Proofs.Code.Block

  Programs as trees of nested blocks.

  A `Block` is a sequence of statements in which every branch holds its arms and every loop its
  body.  A tree has two flat forms: `statements` are its lines from top to bottom, without any
  target, and `code` is its list of instructions, in which each jump target is the position
  that the tree itself gives to the line it leads to.
-/

import Erl.Code.Statement

namespace Erl

/-- The keyword that a statement starts with. -/
def Statement.keyword : Statement → Keyword
  | set _ _ => .set
  | run _ => .run
  | return_ => .return_
  | if_ _ => .if_
  | elseIf _ => .elseIf
  | else_ => .else_
  | endIf => .endIf
  | while_ _ => .while_
  | endWhile => .endWhile

/-- The statement that an instruction carries out, without its targets. -/
def Instruction.statement : Instruction String Expr String → Statement
  | set target value => .set target value
  | run subroutine => .run subroutine
  | return_ => .return_
  | if_ condition _ => .if_ condition
  | elseIf condition _ _ => .elseIf condition
  | else_ _ => .else_
  | endIf => .endIf
  | while_ condition _ => .while_ condition
  | endWhile _ => .endWhile

/-- Where a line stands and how it is written. -/
structure Mark where
  location : Location
  text : String
  deriving Repr

/-- The line with an instruction. -/
def Mark.line (m : Mark) (i : Instruction String Expr String) : SourceLine :=
  ⟨m.location, m.text, i⟩

/-- A line and the statement that it is by itself. -/
structure StatementLine where
  mark : Mark
  statement : Statement
  deriving Repr

/-- The keyword of a line. -/
def StatementLine.keyword (l : StatementLine) : Keyword :=
  l.statement.keyword

/-- What a line says when its targets are left aside. -/
def Line.bare (l : SourceLine) : StatementLine :=
  ⟨⟨l.location, l.text⟩, l.instruction.statement⟩

/-- A statement that neither opens nor closes a block. -/
inductive Plain where
  | set (target : String) (value : Expr)
  | run (subroutine : String)
  | return_
  deriving Repr

/-- A plain statement among all statements. -/
def Plain.statement : Plain → Statement
  | set target value => .set target value
  | run subroutine => .run subroutine
  | return_ => .return_

/-- The instruction of a plain statement. -/
def Plain.instruction : Plain → Instruction String Expr String
  | set target value => .set target value
  | run subroutine => .run subroutine
  | return_ => .return_

mutual

/-- Statements one after another. -/
inductive Block where
  | done
  | plain (mark : Mark) (statement : Plain) (rest : Block)
  | branch (mark : Mark) (condition : Expr) (body : Block) (arms : Arms) (rest : Block)
  | loop (mark : Mark) (condition : Expr) (body : Block) (close : Mark) (rest : Block)

/-- What follows the first body of a branch, up to the end of the branch. -/
inductive Arms where
  | endIf (mark : Mark)
  | else_ (mark : Mark) (body : Block) (close : Mark)
  | elseIf (mark : Mark) (condition : Expr) (body : Block) (more : Arms)

end

/-! ## The lines of a tree -/

mutual

/-- The lines of a block from top to bottom. -/
@[simp] def Block.statements : Block → List StatementLine
  | .done => []
  | .plain mark s rest => ⟨mark, s.statement⟩ :: rest.statements
  | .branch mark c body arms rest =>
    ⟨mark, .if_ c⟩ :: (body.statements ++ (arms.statements ++ rest.statements))
  | .loop mark c body close rest =>
    ⟨mark, .while_ c⟩ :: (body.statements ++ ⟨close, .endWhile⟩ :: rest.statements)

/-- The lines of arms from top to bottom. -/
@[simp] def Arms.statements : Arms → List StatementLine
  | .endIf mark => [⟨mark, .endIf⟩]
  | .else_ mark body close => ⟨mark, .else_⟩ :: (body.statements ++ [⟨close, .endIf⟩])
  | .elseIf mark c body more => ⟨mark, .elseIf c⟩ :: (body.statements ++ more.statements)

end

mutual

/-- The number of lines of a block. -/
@[simp] def Block.size : Block → Nat
  | .done => 0
  | .plain _ _ rest => rest.size + 1
  | .branch _ _ body arms rest => body.size + arms.size + rest.size + 1
  | .loop _ _ body _ rest => body.size + rest.size + 2

/-- The number of lines of arms. -/
@[simp] def Arms.size : Arms → Nat
  | .endIf _ => 1
  | .else_ _ body _ => body.size + 2
  | .elseIf _ _ body more => body.size + more.size + 1

end

mutual

/-- The instructions of a block whose first line has a position. -/
@[simp] def Block.code (start : Nat) : Block → List SourceLine
  | .done => []
  | .plain mark s rest => mark.line s.instruction :: rest.code (start + 1)
  | .branch mark c body arms rest =>
    mark.line (.if_ c (start + 1 + body.size))
      :: (body.code (start + 1) ++ (arms.code (start + 1 + body.size)
        ++ rest.code (start + 1 + body.size + arms.size)))
  | .loop mark c body close rest =>
    mark.line (.while_ c (start + 1 + body.size))
      :: (body.code (start + 1) ++ close.line (.endWhile start)
        :: rest.code (start + 1 + body.size + 1))

/-- The instructions of arms whose first line has a position. -/
@[simp] def Arms.code (start : Nat) : Arms → List SourceLine
  | .endIf mark => [mark.line .endIf]
  | .else_ mark body close =>
    mark.line (.else_ (start + 1 + body.size))
      :: (body.code (start + 1) ++ [close.line .endIf])
  | .elseIf mark c body more =>
    mark.line (.elseIf c (start + 1 + body.size) (start + body.size + more.size))
      :: (body.code (start + 1) ++ more.code (start + 1 + body.size))

end

/-- Arms have at least the line that ends the branch. -/
theorem Arms.size_pos (arms : Arms) : 0 < arms.size := by
  cases arms <;> simp

mutual

@[simp] theorem Block.length_statements (b : Block) : b.statements.length = b.size := by
  cases b with
  | done => rfl
  | plain mark s rest =>
    have hrest := rest.length_statements
    simp [hrest]
  | branch mark c body arms rest =>
    have hbody := body.length_statements
    have harms := arms.length_statements
    have hrest := rest.length_statements
    simp only [Block.statements, Block.size, List.length_cons, List.length_append, hbody,
      harms, hrest]
    omega
  | loop mark c body close rest =>
    have hbody := body.length_statements
    have hrest := rest.length_statements
    simp only [Block.statements, Block.size, List.length_cons, List.length_append, hbody,
      hrest]
    omega

@[simp] theorem Arms.length_statements (arms : Arms) : arms.statements.length = arms.size := by
  cases arms with
  | endIf mark => rfl
  | else_ mark body close =>
    have hbody := body.length_statements
    simp [hbody]
  | elseIf mark c body more =>
    have hbody := body.length_statements
    have hmore := more.length_statements
    simp [hbody, hmore]

end

mutual

/-- The instructions of a block are its lines with targets. -/
theorem Block.map_bare_code (b : Block) (start : Nat) :
    (b.code start).map Line.bare = b.statements := by
  cases b with
  | done => rfl
  | plain mark s rest =>
    have hrest := rest.map_bare_code (start + 1)
    cases s <;> simp [hrest, Line.bare, Mark.line, Plain.instruction, Plain.statement,
      Instruction.statement]
  | branch mark c body arms rest =>
    have hbody := body.map_bare_code (start + 1)
    have harms := arms.map_bare_code (start + 1 + body.size)
    have hrest := rest.map_bare_code (start + 1 + body.size + arms.size)
    simp [hbody, harms, hrest, Line.bare, Mark.line, Instruction.statement]
  | loop mark c body close rest =>
    have hbody := body.map_bare_code (start + 1)
    have hrest := rest.map_bare_code (start + 1 + body.size + 1)
    simp [hbody, hrest, Line.bare, Mark.line, Instruction.statement]

/-- The instructions of arms are their lines with targets. -/
theorem Arms.map_bare_code (arms : Arms) (start : Nat) :
    (arms.code start).map Line.bare = arms.statements := by
  cases arms with
  | endIf mark => rfl
  | else_ mark body close =>
    have hbody := body.map_bare_code (start + 1)
    simp [hbody, Line.bare, Mark.line, Instruction.statement]
  | elseIf mark c body more =>
    have hbody := body.map_bare_code (start + 1)
    have hmore := more.map_bare_code (start + 1 + body.size)
    simp [hbody, hmore, Line.bare, Mark.line, Instruction.statement]

end

@[simp] theorem Block.length_code (b : Block) (start : Nat) :
    (b.code start).length = b.size := by
  rw [← b.length_statements, ← b.map_bare_code start, List.length_map]

@[simp] theorem Arms.length_code (arms : Arms) (start : Nat) :
    (arms.code start).length = arms.size := by
  rw [← arms.length_statements, ← arms.map_bare_code start, List.length_map]

end Erl
