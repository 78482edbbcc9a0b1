/-
  Erl.Proofs.Code.Target

  Where the instructions of a tree lead.

  Guards and arms lead forward, a loop leads to its own end, and the end of a loop leads back
  to the loop that leads to it.  This is all that the jump targets of a program have to satisfy
  for its runs to come to an end, and it does not depend on the operands of the instructions.
-/

import Erl.Proofs.Code.Block

namespace Erl

/-- A property of each element of a list, the first of which has a given position. -/
def EachFrom {α : Type} (P : Nat → α → Prop) (start : Nat) (xs : List α) : Prop :=
  ∀ i x, xs[i]? = some x → P (start + i) x

namespace EachFrom

variable {α : Type} {P : Nat → α → Prop} {start : Nat}

theorem nil : EachFrom P start [] := by
  intro i x h
  simp at h

theorem cons_iff {x : α} {xs : List α} :
    EachFrom P start (x :: xs) ↔ P start x ∧ EachFrom P (start + 1) xs := by
  constructor
  · intro h
    refine ⟨by simpa using h 0 x rfl, ?_⟩
    intro i y hy
    have hi := h (i + 1) y (by simpa using hy)
    rwa [← Nat.add_assoc, Nat.add_right_comm] at hi
  · rintro ⟨hx, hxs⟩ i y hy
    cases i with
    | zero =>
      obtain rfl : x = y := by simpa using hy
      exact hx
    | succ i =>
      have hi := hxs i y (by simpa using hy)
      rwa [Nat.add_right_comm, Nat.add_assoc] at hi

theorem append_iff {xs ys : List α} :
    EachFrom P start (xs ++ ys) ↔ EachFrom P start xs ∧ EachFrom P (start + xs.length) ys := by
  induction xs generalizing start with
  | nil => simp [nil]
  | cons x xs ih =>
    have hlen : start + (x :: xs).length = start + 1 + xs.length := by
      rw [List.length_cons]
      omega
    rw [List.cons_append, cons_iff, ih, cons_iff, hlen, and_assoc]

/-- Every list stands in itself. -/
theorem self (xs : List α) : EachFrom (fun i x => xs[i]? = some x) 0 xs := by
  intro i x h
  rwa [Nat.zero_add]

end EachFrom

/-- An instruction without its operands. -/
def Instruction.outline {τ ε σ : Type} : Instruction τ ε σ → Instruction Unit Unit Unit
  | set _ _ => .set () ()
  | run _ => .run ()
  | return_ => .return_
  | if_ _ next => .if_ () next
  | elseIf _ next stop => .elseIf () next stop
  | else_ stop => .else_ stop
  | endIf => .endIf
  | while_ _ stop => .while_ () stop
  | endWhile start => .endWhile start

/-- The instruction at a position, without its operands. -/
def outlineAt? {τ ε σ : Type} (lines : List (Line τ ε σ)) (i : Nat) :
    Option (Instruction Unit Unit Unit) :=
  (lines[i]?).map fun l => l.instruction.outline

/-- What the targets of the instruction at a position satisfy. -/
def Jumps (at? : Nat → Option (Instruction Unit Unit Unit)) (i : Nat) :
    Instruction Unit Unit Unit → Prop
  | .if_ _ next => i < next
  | .elseIf _ next stop => i < next ∧ i < stop
  | .else_ stop => i < stop
  | .while_ _ stop => i < stop ∧ at? stop = some (.endWhile i)
  | .endWhile start => start < i ∧ at? start = some (.while_ () i)
  | _ => True

/-- Lines whose targets are all as they have to be. -/
def WellTargeted {τ ε σ : Type} (lines : List (Line τ ε σ)) : Prop :=
  ∀ i o, outlineAt? lines i = some o → Jumps (outlineAt? lines) i o

/-! ## Trees -/

section

variable {full : List SourceLine}

mutual

/-- The code of a block in a list of lines has targets as they have to be. -/
theorem Block.code_jumps (b : Block) (start : Nat)
    (h : EachFrom (fun i l => full[i]? = some l) start (b.code start)) :
    EachFrom (fun i l => Jumps (outlineAt? full) i l.instruction.outline) start
      (b.code start) := by
  cases b with
  | done => exact .nil
  | plain mark s rest =>
    rw [Block.code, EachFrom.cons_iff] at h ⊢
    exact ⟨by cases s <;> trivial, rest.code_jumps _ h.2⟩
  | branch mark c body arms rest =>
    rw [Block.code, EachFrom.cons_iff, EachFrom.append_iff, EachFrom.append_iff,
      Block.length_code, Arms.length_code] at h ⊢
    obtain ⟨-, hbody, harms, hrest⟩ := h
    refine ⟨?_, body.code_jumps _ hbody, arms.code_jumps _ harms, rest.code_jumps _ hrest⟩
    show start < start + 1 + body.size
    omega
  | loop mark c body close rest =>
    rw [Block.code, EachFrom.cons_iff, EachFrom.append_iff, EachFrom.cons_iff,
      Block.length_code] at h ⊢
    obtain ⟨hstart, hbody, hclose, hrest⟩ := h
    -- the two ends of the loop stand in `full` and name each other
    have hclose' : outlineAt? full (start + 1 + body.size) = some (.endWhile start) := by
      rw [outlineAt?, hclose]
      rfl
    have hstart' : outlineAt? full start = some (.while_ () (start + 1 + body.size)) := by
      rw [outlineAt?, hstart]
      rfl
    have hlt : start < start + 1 + body.size := by omega
    exact ⟨⟨hlt, hclose'⟩, body.code_jumps _ hbody, ⟨hlt, hstart'⟩, rest.code_jumps _ hrest⟩

theorem Arms.code_jumps (arms : Arms) (start : Nat)
    (h : EachFrom (fun i l => full[i]? = some l) start (arms.code start)) :
    EachFrom (fun i l => Jumps (outlineAt? full) i l.instruction.outline) start
      (arms.code start) := by
  cases arms with
  | endIf mark =>
    rw [Arms.code, EachFrom.cons_iff]
    exact ⟨trivial, .nil⟩
  | else_ mark body close =>
    rw [Arms.code, EachFrom.cons_iff, EachFrom.append_iff, EachFrom.cons_iff] at h ⊢
    refine ⟨?_, body.code_jumps _ h.2.1, trivial, .nil⟩
    show start < start + 1 + body.size
    omega
  | elseIf mark c body more =>
    rw [Arms.code, EachFrom.cons_iff, EachFrom.append_iff, Block.length_code] at h ⊢
    refine ⟨?_, body.code_jumps _ h.2.1, more.code_jumps _ h.2.2⟩
    have hmore := more.size_pos
    show start < start + 1 + body.size ∧ start < start + body.size + more.size
    omega

end

end

/-- The code of a tree is well targeted. -/
theorem Block.wellTargeted (b : Block) : WellTargeted (b.code 0) := by
  intro i o h
  obtain ⟨l, hl, rfl⟩ := Option.map_eq_some_iff.1 h
  have hjumps := b.code_jumps 0 (EachFrom.self (b.code 0)) i l hl
  rwa [Nat.zero_add] at hjumps

/-- Whether lines are well targeted does not depend on their operands. -/
theorem WellTargeted.congr {τ ε σ τ' ε' σ' : Type} {lines : List (Line τ ε σ)}
    {lines' : List (Line τ' ε' σ')}
    (h : ∀ i, outlineAt? lines i = outlineAt? lines' i) (hw : WellTargeted lines) :
    WellTargeted lines' := by
  have hfun : outlineAt? lines = outlineAt? lines' := funext h
  unfold WellTargeted at hw ⊢
  rwa [← hfun]

end Erl
