/-
  Erl.Proofs.Code.Builder

  What the builder makes of the lines of a tree.

  Adding the lines of a whole block to a builder appends the code of the block and leaves the
  open blocks as they were, so a block can be read in any surroundings.  While a branch is open
  its guard and its earlier arms wait for targets; reading the arms that are left fills in
  exactly these and nothing else.
-/

import Erl.Code.Parser
import Erl.Proofs.Code.Block

namespace Erl

namespace CodeBuilder

/-- Adds statements one after another. -/
def addAll (b : CodeBuilder) : List StatementLine → Except SyntaxError CodeBuilder
  | [] => .ok b
  | l :: rest =>
    match b.add l.mark.location l.mark.text l.statement with
    | .error e => .error e
    | .ok b => b.addAll rest

@[simp] theorem addAll_nil (b : CodeBuilder) : b.addAll [] = .ok b := rfl

theorem addAll_cons {b b' : CodeBuilder} {l : StatementLine} (rest : List StatementLine)
    (h : b.add l.mark.location l.mark.text l.statement = .ok b') :
    b.addAll (l :: rest) = b'.addAll rest := by
  rw [addAll, h]

theorem addAll_append {b b' : CodeBuilder} {before : List StatementLine}
    (after : List StatementLine) (h : b.addAll before = .ok b') :
    b.addAll (before ++ after) = b'.addAll after := by
  induction before generalizing b with
  | nil =>
    obtain rfl : b = b' := by simpa using h
    rfl
  | cons l rest ih =>
    rw [addAll] at h
    rw [List.cons_append, addAll]
    cases hl : b.add l.mark.location l.mark.text l.statement with
    | error e => simp [hl] at h
    | ok b₁ => exact ih (by simpa [hl] using h)

/-! ## Patching lists of lines

The lines read so far are `ls ++ ms`, where everything that waits for a target is in `ls`. -/

/-- A line with a changed instruction. -/
def change (f : Instruction String Expr String → Instruction String Expr String)
    (l : SourceLine) : SourceLine :=
  { l with instruction := f l.instruction }

theorem patch_toArray (ls : List SourceLine) (i : Nat)
    (f : Instruction String Expr String → Instruction String Expr String) :
    patch ls.toArray i f = (ls.modify i (change f)).toArray := by
  rw [patch, List.modify_toArray]
  rfl

theorem modify_append_left {α : Type} (f : α → α) {ls : List α} {i : Nat} (ms : List α)
    (h : i < ls.length) : (ls ++ ms).modify i f = ls.modify i f ++ ms := by
  induction ls generalizing i with
  | nil => simp at h
  | cons l ls ih =>
    cases i with
    | zero => rfl
    | succ i => simp [ih (by simpa using h)]

theorem modify_append_cons {α : Type} (f : α → α) (ls : List α) (x : α) (ms : List α) :
    (ls ++ x :: ms).modify ls.length f = ls ++ f x :: ms := by
  induction ls with
  | nil => rfl
  | cons l ls ih => simp [ih]

/-- Fills in the end of branches in a list of lines. -/
def stopAt (target : Nat) (branches : List Nat) (ls : List SourceLine) : List SourceLine :=
  branches.foldl (fun ls i => ls.modify i (change (·.withStop target))) ls

@[simp] theorem length_stopAt (target : Nat) (branches : List Nat) (ls : List SourceLine) :
    (stopAt target branches ls).length = ls.length := by
  induction branches generalizing ls with
  | nil => rfl
  | cons i rest ih =>
    rw [stopAt, List.foldl_cons, ← stopAt, ih, List.length_modify]

theorem patchBranches_toArray (ls : List SourceLine) (branches : List Nat) (target : Nat) :
    patchBranches ls.toArray branches target = (stopAt target branches ls).toArray := by
  induction branches generalizing ls with
  | nil => rfl
  | cons i rest ih =>
    rw [patchBranches, List.foldl_cons, ← patchBranches, patch_toArray, ih]
    rfl

/-- Branches of the lines in front leave the lines behind as they are. -/
theorem stopAt_append {target : Nat} {branches : List Nat} {ls : List SourceLine}
    (ms : List SourceLine) (h : ∀ i ∈ branches, i < ls.length) :
    stopAt target branches (ls ++ ms) = stopAt target branches ls ++ ms := by
  induction branches generalizing ls with
  | nil => rfl
  | cons i rest ih =>
    have hi : i < ls.length := h i (by simp)
    have hrest : ∀ j ∈ rest, j < (ls.modify i (change (·.withStop target))).length := by
      intro j hj
      rw [List.length_modify]
      exact h j (by simp [hj])
    simp only [stopAt, List.foldl_cons, modify_append_left _ ms hi]
    exact ih hrest

/-- The line behind those in front is one of the branches. -/
theorem stopAt_append_cons {target : Nat} {branches : List Nat} {ls : List SourceLine}
    (l : SourceLine) (ms : List SourceLine) (h : ∀ i ∈ branches, i < ls.length) :
    stopAt target (branches ++ [ls.length]) (ls ++ l :: ms)
      = stopAt target branches ls ++ change (·.withStop target) l :: ms := by
  have hback := modify_append_cons (change (·.withStop target)) (stopAt target branches ls) l ms
  rw [length_stopAt] at hback
  have hfront : stopAt target branches (ls ++ l :: ms) = stopAt target branches ls ++ l :: ms :=
    stopAt_append (l :: ms) h
  simp only [stopAt] at hback hfront ⊢
  rw [List.foldl_append, hfront]
  exact hback

/-! ## One statement

What `add` does to a builder that has read `ls`, for each kind of statement. -/

section Add

variable (ls : List SourceLine) (blocks : List OpenBlock) (m : Mark)

theorem add_plain (s : Plain) :
    add ⟨ls.toArray, blocks⟩ m.location m.text s.statement
      = .ok ⟨(ls ++ [m.line s.instruction]).toArray, blocks⟩ := by
  cases s <;> simp [add, push, Plain.statement, Plain.instruction, Mark.line]

theorem add_if (c : Expr) :
    add ⟨ls.toArray, blocks⟩ m.location m.text (.if_ c)
      = .ok ⟨(ls ++ [m.line (.if_ c 0)]).toArray,
          .branch (some ls.length) [] false m.location :: blocks⟩ := by
  simp [add, push, enter, Mark.line]

theorem add_while (c : Expr) :
    add ⟨ls.toArray, blocks⟩ m.location m.text (.while_ c)
      = .ok ⟨(ls ++ [m.line (.while_ c 0)]).toArray, .loop ls.length m.location :: blocks⟩ := by
  simp [add, push, enter, Mark.line]

theorem add_elseIf (guard : Nat) (branches : List Nat) (opened : Location) (c : Expr) :
    add ⟨ls.toArray, .branch (some guard) branches false opened :: blocks⟩ m.location m.text
        (.elseIf c)
      = .ok ⟨(ls.modify guard (change (·.withNext ls.length))
            ++ [m.line (.elseIf c 0 0)]).toArray,
          .branch (some ls.length) (branches ++ [ls.length]) false opened :: blocks⟩ := by
  simp [add, nextBranch, patchGuard, patch_toArray, push, Mark.line, Except.map]

theorem add_else (guard : Nat) (branches : List Nat) (opened : Location) :
    add ⟨ls.toArray, .branch (some guard) branches false opened :: blocks⟩ m.location m.text
        .else_
      = .ok ⟨(ls.modify guard (change (·.withNext ls.length)) ++ [m.line (.else_ 0)]).toArray,
          .branch none (branches ++ [ls.length]) true opened :: blocks⟩ := by
  simp [add, nextBranch, patchGuard, patch_toArray, push, Mark.line, Except.map]

/-- The end of a branch that still has a guard waiting. -/
theorem add_endIf (guard : Nat) (branches : List Nat) (sawElse : Bool) (opened : Location) :
    add ⟨ls.toArray, .branch (some guard) branches sawElse opened :: blocks⟩ m.location m.text
        .endIf
      = .ok ⟨(stopAt ls.length branches (ls.modify guard (change (·.withNext ls.length)))
            ++ [m.line .endIf]).toArray, blocks⟩ := by
  simp [add, closeBranch, patchGuard, patch_toArray, patchBranches_toArray, push, Mark.line,
    Except.map]

/-- The end of a branch whose last arm was `ELSE`. -/
theorem add_endIf_none (branches : List Nat) (sawElse : Bool) (opened : Location) :
    add ⟨ls.toArray, .branch none branches sawElse opened :: blocks⟩ m.location m.text .endIf
      = .ok ⟨(stopAt ls.length branches ls ++ [m.line .endIf]).toArray, blocks⟩ := by
  simp [add, closeBranch, patchGuard, patchBranches_toArray, push, Mark.line, Except.map]

theorem add_endWhile (start : Nat) (opened : Location) :
    add ⟨ls.toArray, .loop start opened :: blocks⟩ m.location m.text .endWhile
      = .ok ⟨(ls.modify start (change (·.withStop ls.length))
            ++ [m.line (.endWhile start)]).toArray, blocks⟩ := by
  simp [add, closeLoop, patch_toArray, push, Mark.line, Except.map]

end Add

end CodeBuilder

/-! ## Whole trees -/

open CodeBuilder

mutual

/-- Adding the lines of a block appends its code. -/
theorem Block.addAll_statements (b : Block) (ls : List SourceLine) (blocks : List OpenBlock) :
    addAll ⟨ls.toArray, blocks⟩ b.statements
      = .ok ⟨(ls ++ b.code ls.length).toArray, blocks⟩ := by
  cases b with
  | done => simp
  | plain mark s rest =>
    have hrest := rest.addAll_statements (ls ++ [mark.line s.instruction]) blocks
    rw [Block.statements, addAll_cons _ (add_plain ls blocks mark s), hrest]
    simp
  | branch mark c body arms rest =>
    let opened : OpenBlock := .branch (some ls.length) [] false mark.location
    have hbody := body.addAll_statements (ls ++ [mark.line (.if_ c 0)]) (opened :: blocks)
    have harms := arms.addAll_statements
      (ls ++ [mark.line (.if_ c 0)] ++ body.code (ls.length + 1)) ls.length [] mark.location
      blocks (by simp)
    -- the guard is the line that opened the branch, and no arm waits yet
    have hguard : (ls ++ [mark.line (.if_ c 0)] ++ body.code (ls.length + 1)).modify ls.length
          (change (·.withNext (ls.length + 1 + body.size)))
        = ls ++ mark.line (.if_ c (ls.length + 1 + body.size)) :: body.code (ls.length + 1) := by
      rw [List.append_assoc]
      exact modify_append_cons _ ls _ _
    simp only [List.length_append, List.length_singleton, Block.length_code] at hbody harms
    rw [hguard] at harms
    have hrest := rest.addAll_statements
      (ls ++ mark.line (.if_ c (ls.length + 1 + body.size)) :: body.code (ls.length + 1)
        ++ arms.code (ls.length + 1 + body.size)) blocks
    rw [Block.statements, addAll_cons _ (add_if ls blocks mark c), addAll_append _ hbody,
      addAll_append _ harms]
    refine Eq.trans hrest ?_
    have hlen : ls.length + (body.size + arms.size + 1)
        = ls.length + 1 + body.size + arms.size := by omega
    simp [hlen]
  | loop mark c body close rest =>
    have hbody := body.addAll_statements (ls ++ [mark.line (.while_ c 0)])
      (.loop ls.length mark.location :: blocks)
    have hclose := add_endWhile (ls ++ [mark.line (.while_ c 0)] ++ body.code (ls.length + 1))
      blocks close ls.length mark.location
    have hstart : (ls ++ [mark.line (.while_ c 0)] ++ body.code (ls.length + 1)).modify ls.length
          (change (·.withStop (ls.length + 1 + body.size)))
        = ls ++ mark.line (.while_ c (ls.length + 1 + body.size))
          :: body.code (ls.length + 1) := by
      rw [List.append_assoc]
      exact modify_append_cons _ ls _ _
    simp only [List.length_append, List.length_singleton, Block.length_code] at hbody hclose
    rw [hstart] at hclose
    have hrest := rest.addAll_statements
      (ls ++ mark.line (.while_ c (ls.length + 1 + body.size)) :: body.code (ls.length + 1)
        ++ [close.line (.endWhile ls.length)]) blocks
    rw [Block.statements, addAll_cons _ (add_while ls blocks mark c), addAll_append _ hbody,
      addAll_cons _ hclose]
    refine Eq.trans hrest ?_
    have hlen : ls.length + (body.size + 1 + 1) = ls.length + 1 + body.size + 1 := by omega
    simp [hlen]

/-- Adding the lines of arms appends their code, sends the guard that waits to the first of
    them and the earlier arms to the last. -/
theorem Arms.addAll_statements (arms : Arms) (ls : List SourceLine) (guard : Nat)
    (branches : List Nat) (opened : Location) (outer : List OpenBlock)
    (hb : ∀ i ∈ branches, i < ls.length) :
    addAll ⟨ls.toArray, .branch (some guard) branches false opened :: outer⟩ arms.statements
      = .ok ⟨(stopAt (ls.length + arms.size - 1) branches
            (ls.modify guard (change (·.withNext ls.length)))
          ++ arms.code ls.length).toArray, outer⟩ := by
  cases arms with
  | endIf mark =>
    rw [Arms.statements, addAll_cons _ (add_endIf ls outer mark guard branches false opened)]
    simp
  | else_ mark body close =>
    let guarded := ls.modify guard (change (·.withNext ls.length))
    have hg : guarded.length = ls.length := List.length_modify ..
    have hbody := body.addAll_statements (guarded ++ [mark.line (.else_ 0)])
      (.branch none (branches ++ [ls.length]) true opened :: outer)
    have hclose := add_endIf_none
      (guarded ++ [mark.line (.else_ 0)] ++ body.code (ls.length + 1)) outer close
      (branches ++ [ls.length]) true opened
    have hstop : stopAt (ls.length + 1 + body.size) (branches ++ [ls.length])
          (guarded ++ [mark.line (.else_ 0)] ++ body.code (ls.length + 1))
        = stopAt (ls.length + 1 + body.size) branches guarded
          ++ mark.line (.else_ (ls.length + 1 + body.size)) :: body.code (ls.length + 1) := by
      rw [List.append_assoc, ← hg]
      exact stopAt_append_cons _ _ (by rw [hg]; exact hb)
    simp only [List.length_append, List.length_singleton, Block.length_code, hg] at hbody hclose
    rw [hstop] at hclose
    rw [Arms.statements, addAll_cons _ (add_else ls outer mark guard branches opened),
      addAll_append _ hbody, addAll_cons _ hclose]
    have hlen : ls.length + (body.size + 1) = ls.length + 1 + body.size := by omega
    simp [hlen, guarded]
  | elseIf mark c body more =>
    let guarded := ls.modify guard (change (·.withNext ls.length))
    have hg : guarded.length = ls.length := List.length_modify ..
    have hbody := body.addAll_statements (guarded ++ [mark.line (.elseIf c 0 0)])
      (.branch (some ls.length) (branches ++ [ls.length]) false opened :: outer)
    have hmore := more.addAll_statements
      (guarded ++ [mark.line (.elseIf c 0 0)] ++ body.code (ls.length + 1)) ls.length
      (branches ++ [ls.length]) opened outer (by
        intro i hi
        simp only [List.mem_append, List.mem_singleton] at hi
        simp only [List.length_append, hg, List.length_singleton]
        rcases hi with hi | hi
        · have := hb i hi
          omega
        · omega)
    -- the new guard is its own line, which is also the last arm that waits for the end
    have hnext : (guarded ++ [mark.line (.elseIf c 0 0)] ++ body.code (ls.length + 1)).modify
          ls.length (change (·.withNext (ls.length + 1 + body.size)))
        = guarded ++ mark.line (.elseIf c (ls.length + 1 + body.size) 0)
          :: body.code (ls.length + 1) := by
      rw [List.append_assoc, ← hg]
      exact modify_append_cons _ guarded _ _
    have hstop : stopAt (ls.length + body.size + more.size) (branches ++ [ls.length])
          (guarded ++ mark.line (.elseIf c (ls.length + 1 + body.size) 0)
            :: body.code (ls.length + 1))
        = stopAt (ls.length + body.size + more.size) branches guarded
          ++ mark.line (.elseIf c (ls.length + 1 + body.size) (ls.length + body.size + more.size))
            :: body.code (ls.length + 1) := by
      rw [← hg]
      exact stopAt_append_cons _ _ (by rw [hg]; exact hb)
    simp only [List.length_append, List.length_singleton, Block.length_code, hg] at hbody hmore
    have hlast : ls.length + 1 + body.size + more.size - 1
        = ls.length + body.size + more.size := by omega
    rw [hnext, hlast, hstop] at hmore
    rw [Arms.statements, addAll_cons _ (add_elseIf ls outer mark guard branches opened c),
      addAll_append _ hbody, hmore]
    have hsize : ls.length + (body.size + more.size + 1) - 1
        = ls.length + body.size + more.size := by omega
    simp [hsize, guarded]

end

/-! ## What may follow

Read from the front, a list of lines that the builder accepts first completes the innermost
open block and then the blocks around it. -/

/-- What an accepted statement does to the open blocks. -/
def Statement.Turns (s : Statement) (before after : List OpenBlock) : Prop :=
  match s with
  | .set _ _ => after = before
  | .run _ => after = before
  | .return_ => after = before
  | .if_ _ => ∃ guard branches opened, after = .branch guard branches false opened :: before
  | .elseIf _ => ∃ guard branches opened guard' branches' outer,
      before = .branch guard branches false opened :: outer
        ∧ after = .branch guard' branches' false opened :: outer
  | .else_ => ∃ guard branches opened guard' branches' outer,
      before = .branch guard branches false opened :: outer
        ∧ after = .branch guard' branches' true opened :: outer
  | .endIf => ∃ guard branches sawElse opened,
      before = .branch guard branches sawElse opened :: after
  | .while_ _ => ∃ start opened, after = .loop start opened :: before
  | .endWhile => ∃ start opened, before = .loop start opened :: after

theorem CodeBuilder.nextBranch_ok {b b' : CodeBuilder} {index : Nat} {k : Keyword}
    {location : Location} (h : b.nextBranch index k location = .ok b') :
    ∃ guard branches opened guard' branches' outer,
      b.blocks = .branch guard branches false opened :: outer
        ∧ b'.blocks = .branch guard' branches' (k == .else_) opened :: outer := by
  unfold nextBranch at h
  split at h
  · rename_i guard branches sawElse opened outer hblocks
    cases sawElse with
    | true => simp at h
    | false =>
      simp only [Bool.false_eq_true, if_false, Except.ok.injEq] at h
      subst h
      exact ⟨guard, branches, opened, _, _, outer, hblocks, rfl⟩
  · cases h

theorem CodeBuilder.closeBranch_ok {b b' : CodeBuilder} {index : Nat} {location : Location}
    (h : b.closeBranch index location = .ok b') :
    ∃ guard branches sawElse opened,
      b.blocks = .branch guard branches sawElse opened :: b'.blocks := by
  unfold closeBranch at h
  split at h
  · rename_i guard branches sawElse opened outer hblocks
    simp only [Except.ok.injEq] at h
    subst h
    exact ⟨guard, branches, sawElse, opened, hblocks⟩
  · cases h
  · cases h

theorem CodeBuilder.closeLoop_ok {b : CodeBuilder} {r : CodeBuilder × Nat} {index : Nat}
    {location : Location} (h : b.closeLoop index location = .ok r) :
    ∃ start opened, b.blocks = .loop start opened :: r.1.blocks := by
  unfold closeLoop at h
  split at h
  · rename_i start opened outer hblocks
    simp only [Except.ok.injEq] at h
    subst h
    exact ⟨start, opened, hblocks⟩
  · cases h
  · cases h

theorem CodeBuilder.add_turns {b b' : CodeBuilder} {location : Location} {text : String}
    {s : Statement} (h : b.add location text s = .ok b') : s.Turns b.blocks b'.blocks := by
  cases s with
  | set target value => cases h; rfl
  | run subroutine => cases h; rfl
  | return_ => cases h; rfl
  | if_ c => cases h; exact ⟨_, _, _, rfl⟩
  | while_ c => cases h; exact ⟨_, _, rfl⟩
  | elseIf c =>
    cases hn : b.nextBranch b.lines.size .elseIf location with
    | error e => simp [add, hn, Except.map] at h
    | ok b₁ =>
      simp only [add, hn, Except.map, Except.ok.injEq] at h
      subst h
      exact nextBranch_ok hn
  | else_ =>
    cases hn : b.nextBranch b.lines.size .else_ location with
    | error e => simp [add, hn, Except.map] at h
    | ok b₁ =>
      simp only [add, hn, Except.map, Except.ok.injEq] at h
      subst h
      exact nextBranch_ok hn
  | endIf =>
    cases hn : b.closeBranch b.lines.size location with
    | error e => simp [add, hn, Except.map] at h
    | ok b₁ =>
      simp only [add, hn, Except.map, Except.ok.injEq] at h
      subst h
      obtain ⟨guard, branches, sawElse, opened, hb⟩ := closeBranch_ok hn
      exact ⟨guard, branches, sawElse, opened, hb⟩
  | endWhile =>
    cases hn : b.closeLoop b.lines.size location with
    | error e => simp [add, hn, Except.map] at h
    | ok r =>
      simp only [add, hn, Except.map, Except.ok.injEq] at h
      subst h
      exact closeLoop_ok hn

/-- The lines that end an open block once its current body is complete. -/
def OpenBlock.Closes : OpenBlock → List StatementLine → Prop
  | .loop _ _, ls => ∃ close, ls = [⟨close, .endWhile⟩]
  | .branch _ _ false _, ls => ∃ arms : Arms, ls = arms.statements
  | .branch _ _ true _, ls => ∃ close, ls = [⟨close, .endIf⟩]

/-- Lines that complete all open blocks, the innermost first, and then form a block. -/
def Completes : List OpenBlock → List StatementLine → Prop
  | [], ls => ∃ b : Block, ls = b.statements
  | block :: outer, ls => ∃ (b : Block) (ending after : List StatementLine),
      ls = b.statements ++ (ending ++ after) ∧ block.Closes ending ∧ Completes outer after

/-- A whole statement in front goes into the body that is read. -/
theorem Completes.prepend {blocks : List OpenBlock} {ls : List StatementLine}
    (h : Completes blocks ls) (wrap : Block → Block) (front : List StatementLine)
    (hwrap : ∀ b, (wrap b).statements = front ++ b.statements) :
    Completes blocks (front ++ ls) := by
  cases blocks with
  | nil =>
    obtain ⟨b, rfl⟩ := h
    exact ⟨wrap b, (hwrap b).symm⟩
  | cons block outer =>
    obtain ⟨b, ending, after, rfl, hclose, houter⟩ := h
    refine ⟨wrap b, ending, after, ?_, hclose, houter⟩
    rw [hwrap, List.append_assoc]

/-- An end in front completes the innermost block. -/
theorem Completes.close {outer : List OpenBlock} {after : List StatementLine}
    (h : Completes outer after) {block : OpenBlock} (ending : List StatementLine)
    (hclose : block.Closes ending) : Completes (block :: outer) (ending ++ after) :=
  ⟨.done, ending, after, rfl, hclose, h⟩

/-- Lines that complete the blocks after a statement complete those before it together with
    the statement. -/
theorem Completes.turn {l : StatementLine} {before after : List OpenBlock}
    {rest : List StatementLine} (ht : l.statement.Turns before after)
    (h : Completes after rest) : Completes before (l :: rest) := by
  obtain ⟨mark, s⟩ := l
  cases s with
  | set target value =>
    obtain rfl : after = before := ht
    exact h.prepend (.plain mark (.set target value)) [⟨mark, .set target value⟩] fun _ => rfl
  | run subroutine =>
    obtain rfl : after = before := ht
    exact h.prepend (.plain mark (.run subroutine)) [⟨mark, .run subroutine⟩] fun _ => rfl
  | return_ =>
    obtain rfl : after = before := ht
    exact h.prepend (.plain mark .return_) [⟨mark, .return_⟩] fun _ => rfl
  | if_ c =>
    obtain ⟨guard, branches, opened, rfl⟩ := ht
    obtain ⟨body, ending, after, rfl, ⟨arms, rfl⟩, houter⟩ := h
    have hw := houter.prepend (.branch mark c body arms)
      (⟨mark, .if_ c⟩ :: (body.statements ++ arms.statements)) (by simp)
    simpa using hw
  | elseIf c =>
    obtain ⟨guard, branches, opened, guard', branches', outer, rfl, rfl⟩ := ht
    obtain ⟨body, ending, after, rfl, ⟨arms, rfl⟩, houter⟩ := h
    have hclose : OpenBlock.Closes (.branch guard branches false opened)
        (Arms.elseIf mark c body arms).statements := ⟨_, rfl⟩
    simpa using houter.close _ hclose
  | else_ =>
    obtain ⟨guard, branches, opened, guard', branches', outer, rfl, rfl⟩ := ht
    obtain ⟨body, ending, after, rfl, ⟨close, rfl⟩, houter⟩ := h
    have hclose : OpenBlock.Closes (.branch guard branches false opened)
        (Arms.else_ mark body close).statements := ⟨_, rfl⟩
    simpa using houter.close _ hclose
  | endIf =>
    obtain ⟨guard, branches, sawElse, opened, rfl⟩ := ht
    cases sawElse with
    | false => exact h.close [⟨mark, .endIf⟩] ⟨.endIf mark, rfl⟩
    | true => exact h.close [⟨mark, .endIf⟩] ⟨mark, rfl⟩
  | while_ c =>
    obtain ⟨start, opened, rfl⟩ := ht
    obtain ⟨body, ending, after, rfl, ⟨close, rfl⟩, houter⟩ := h
    have hw := houter.prepend (.loop mark c body close)
      (⟨mark, .while_ c⟩ :: (body.statements ++ [⟨close, .endWhile⟩])) (by simp)
    simpa using hw
  | endWhile =>
    obtain ⟨start, opened, rfl⟩ := ht
    exact h.close [⟨mark, .endWhile⟩] ⟨mark, rfl⟩

/-- Lines after which no block is open complete the blocks that were open before them. -/
theorem CodeBuilder.completes_of_addAll {b b' : CodeBuilder} {ls : List StatementLine}
    (h : b.addAll ls = .ok b') (hend : b'.blocks = []) : Completes b.blocks ls := by
  induction ls generalizing b with
  | nil =>
    obtain rfl : b = b' := by simpa using h
    rw [hend]
    exact ⟨.done, rfl⟩
  | cons l rest ih =>
    rw [addAll] at h
    cases hl : b.add l.mark.location l.mark.text l.statement with
    | error e => simp [hl] at h
    | ok b₁ => exact (ih (by simpa [hl] using h)).turn (add_turns hl)

end Erl
