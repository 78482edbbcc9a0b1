/-
  Erl.Proofs.Machine.Termination

  Invocations are never cut off.

  Nothing but a walk counts steps, and a walk over well-targeted lines has an allowance that it
  cannot use up.  So no invocation is cut off, at any depth of calls.
-/

import Erl.Proofs.Machine.Forest
import Erl.Proofs.Machine.Walk

namespace Erl

/-- A computation that is never cut off by a count of steps. -/
def Exec.Finishes {α : Type} (x : Exec α) : Prop :=
  ∀ m m', x m ≠ .error .outOfSteps m'

namespace Exec.Finishes

variable {α β : Type}

theorem pure (a : α) : Finishes (Pure.pure a : Exec α) := by
  intro m m' h
  cases h

theorem bind {x : Exec α} {f : α → Exec β} (hx : Finishes x) (hf : ∀ a, Finishes (f a)) :
    Finishes (x >>= f) := by
  intro m m' h
  cases hm : x m with
  | ok a m₁ =>
    rw [Exec.bind_ok hm] at h
    exact hf a m₁ m' h
  | error e m₁ =>
    rw [Exec.bind_error hm] at h
    cases h
    exact hx m m' hm

theorem get : Finishes (MonadState.get : Exec Machine) := by
  intro m m' h
  cases h

theorem set (m₀ : Machine) : Finishes (MonadStateOf.set m₀ : Exec PUnit) := by
  intro m m' h
  cases h

theorem modify (f : Machine → Machine) : Finishes (modify f : Exec PUnit) := by
  intro m m' h
  cases h

theorem throw {e : Interrupt} (he : e ≠ .outOfSteps) : Finishes (throw e : Exec α) := by
  intro m m' h
  cases h
  exact he rfl

theorem record (severity : Severity) (program message : String) :
    Finishes (Exec.record severity program message) :=
  modify _

end Exec.Finishes

/-! ## Expressions -/

section Expressions

variable {img : Image} {program : String}

theorem callRoutine_finishes (f : Builtin) (args : List Value) :
    (callRoutine img f args).Finishes := by
  unfold callRoutine
  split
  · exact .pure _
  · refine .bind .get fun m => ?_
    refine .bind (.set _) fun _ => ?_
    split
    · exact .pure _
    · exact .pure _
    · exact .throw (by simp)

theorem callMessage_finishes (f : MessageFunction) (args : List Value) :
    (callMessage program f args).Finishes := by
  unfold callMessage
  cases f with
  | fatalHalt => exact .bind (.record _ _ _) fun _ => .throw (by simp)
  | severe => exact .bind (.record _ _ _) fun _ => .pure _
  | warning => exact .bind (.record _ _ _) fun _ => .pure _

theorem applyBuiltin_finishes (f : Builtin) (args : List Value) :
    (applyBuiltin img program f args).Finishes := by
  cases f with
  | math f => exact callRoutine_finishes _ _
  | air f => exact callRoutine_finishes _ _
  | message f => exact callMessage_finishes _ _
  | trend f => exact .pure _
  | curveValue => exact .pure _

theorem Operation.apply_finishes (o : Operation) (args : List Value) :
    (o.apply img program args).Finishes := by
  unfold Operation.apply
  split
  · exact .pure _
  · exact .pure _
  · exact .pure _
  · split
    · exact applyBuiltin_finishes _ _
    · exact .pure _
  · exact .pure _

section Operands

variable {sub : NodeId → Exec Value} (hsub : ∀ id, (sub id).Finishes)
include hsub

theorem Operand.read_finishes (o : Operand) : (o.read sub).Finishes := by
  cases o with
  | constant l => exact .pure _
  | variableRef id => exact .bind .get fun _ => .pure _
  | trendRef id => exact .pure _
  | node id => exact hsub id

theorem readOperands_finishes (os : List Operand) : (readOperands sub os).Finishes := by
  induction os with
  | nil => exact .pure _
  | cons o rest ih =>
    rw [readOperands]
    refine .bind (Operand.read_finishes hsub o) fun v => ?_
    split
    · exact .pure _
    · refine .bind ih fun r => ?_
      split <;> exact .pure _

theorem Node.evaluate_finishes (n : Node) : (n.evaluate img program sub).Finishes := by
  unfold Node.evaluate
  split
  · exact Operand.read_finishes hsub _
  · exact .pure _
  · refine .bind (readOperands_finishes hsub _) fun r => ?_
    split
    · exact .pure _
    · exact Operation.apply_finishes _ _

end Operands

/-- No evaluation is cut off. -/
theorem Image.evaluate_finishes (id : NodeId) : (img.evaluate program id).Finishes := by
  -- also in a table that is no forest: a reference that goes forward is not followed
  induction id using Nat.strongRecOn with
  | ind id ih =>
    rw [Image.evaluate]
    split
    · exact .pure _
    · refine Node.evaluate_finishes (fun sub => ?_) _
      split
      · next hlt => exact ih sub hlt
      · exact .pure _

end Expressions

/-! ## Steps -/

section Steps

variable {img : Image} {p : Program} {call : Option (ProgramId → Exec Ending)}

theorem reportError_finishes (line : ReadyLine) (v : Value) :
    (reportError img p line v).Finishes := by
  unfold reportError
  split
  · split
    · exact .record _ _ _
    · exact .pure _
  · exact .pure _

theorem noteLine_finishes (line : ReadyLine) (v : Option Value) :
    (noteLine img p line v).Finishes := by
  unfold noteLine
  split
  · exact .modify _
  · exact .pure _

theorem evaluateLine_finishes (line : ReadyLine) (e : NodeId) :
    (evaluateLine img p line e).Finishes := by
  refine .bind (Image.evaluate_finishes e) fun v => ?_
  refine .bind (reportError_finishes line v) fun _ => ?_
  exact .bind (noteLine_finishes line _) fun _ => .pure _

theorem enterLoop_finishes (budget line : Nat) : (enterLoop img p budget line).Finishes := by
  cases budget with
  | zero => exact .bind (.record _ _ _) fun _ => .pure _
  | succ budget => exact .pure _

theorem callSubroutine_finishes (hcall : ∀ f ∈ call, ∀ id, (f id).Finishes) (callee : ProgramId) :
    (callSubroutine img p call callee).Finishes := by
  cases call with
  | none => exact .bind (.record _ _ _) fun _ => .pure _
  | some f => exact hcall f rfl callee

theorem runLine_finishes (hcall : ∀ f ∈ call, ∀ id, (f id).Finishes) (budget index : Nat)
    (line : ReadyLine) : (runLine img p call budget index line).Finishes := by
  unfold runLine
  split
  · refine .bind (evaluateLine_finishes _ _) fun v => ?_
    exact .bind (.modify _) fun _ => .pure _
  · refine .bind (noteLine_finishes _ _) fun _ => ?_
    refine .bind (callSubroutine_finishes hcall _) fun status => ?_
    split <;> exact .pure _
  · exact .bind (noteLine_finishes _ _) fun _ => .pure _
  · exact .bind (evaluateLine_finishes _ _) fun _ => .pure _
  · exact .pure _
  · exact .pure _
  · exact .pure _
  · refine .bind (evaluateLine_finishes _ _) fun v => ?_
    split
    · exact enterLoop_finishes _ _
    · exact .pure _
  · exact .pure _

theorem seekLine_finishes (budget index : Nat) : (seekLine img p budget index).Finishes := by
  unfold seekLine
  split
  · split
    · exact .bind (evaluateLine_finishes _ _) fun _ => .pure _
    · exact .pure _
  · exact .pure _

/-- No step is cut off, if no call is. -/
theorem step_finishes (hcall : ∀ f ∈ call, ∀ id, (f id).Finishes) (budget : Nat)
    (cursor : Cursor) : (step img p call budget cursor).Finishes := by
  cases cursor with
  | run index =>
    rw [step]
    split
    · exact runLine_finishes hcall _ _ _
    · exact .pure _
  | seek index => exact seekLine_finishes _ _

/-- Steps that are not cut off do not lead to a place where an invocation is. -/
theorem Ends.ne_outOfSteps (hcall : ∀ f ∈ call, ∀ id, (f id).Finishes) {budget : Nat}
    {cursor : Cursor} {m m' : Machine} {r : EStateM.Result Interrupt Machine Ending}
    (h : Ends img p call budget cursor m r) : r ≠ .error .outOfSteps m' := by
  induction h with
  | next _ _ ih => exact ih
  | halt _ => exact fun h => by cases h
  | interrupt hstep =>
    intro heq
    cases heq
    exact step_finishes hcall _ _ _ _ hstep

end Steps

/-! ## Invocations -/

/-- What a program calls subroutines with at a depth. -/
def Image.calls (img : Image) : Nat → Option (ProgramId → Exec Ending)
  | 0 => none
  | depth + 1 => some (img.invoke depth)

theorem Image.invoke_eq (img : Image) (depth : Nat) (id : ProgramId) :
    img.invoke depth id = img.start (img.calls depth) id := by
  cases depth <;> rfl

/-- All programs have targets as they have to be, and nodes refer to nodes before them. -/
structure Image.IsSound (img : Image) : Prop where
  isForest : IsForest img.nodes
  wellTargeted : ∀ (id : ProgramId) (p : Program), img.programs[id]? = some p →
    WellTargeted p.lines.toList

namespace Image.IsSound

variable {img : Image} (h : img.IsSound)
include h

/-- No invocation is cut off, if no call is. -/
theorem start_finishes {call : Option (ProgramId → Exec Ending)}
    (hcall : ∀ f ∈ call, ∀ id, (f id).Finishes) (id : ProgramId) :
    (img.start call id).Finishes := by
  intro m m'
  cases hp : img.programs[id]? with
  | none =>
    rw [Image.start, hp]
    exact Exec.Finishes.pure _ m m'
  | some p => exact (ends_start (h.wellTargeted id p hp) hp m).ne_outOfSteps hcall

/-- No call at any depth is cut off. -/
theorem calls_finish (depth : Nat) : ∀ f ∈ img.calls depth, ∀ id, (f id).Finishes := by
  -- the depth bounds the recursion of subroutines, whatever they call
  induction depth with
  | zero => simp [calls]
  | succ depth ih =>
    intro f hf id
    cases hf
    rw [Image.invoke_eq]
    exact h.start_finishes ih id

/-- No invocation at any depth is cut off. -/
theorem invoke_finishes (depth : Nat) (id : ProgramId) : (img.invoke depth id).Finishes := by
  rw [Image.invoke_eq]
  exact h.start_finishes (h.calls_finish depth) id

/-- An invocation at any depth ends where the steps from the first line lead. -/
theorem ends_invoke (depth : Nat) {id : ProgramId} {p : Program}
    (hp : img.programs[id]? = some p) (m : Machine) :
    Ends img p (img.calls depth) img.settings.limits.loopEntries (.run 0) m
      (img.invoke depth id m) := by
  rw [Image.invoke_eq]
  exact ends_start (h.wellTargeted id p hp) hp m

end Image.IsSound

end Erl
