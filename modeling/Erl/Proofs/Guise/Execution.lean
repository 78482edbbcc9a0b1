/-
  Erl.Proofs.Guise.Execution

  Programs run alike in two guises.

  Reporting and tracing stand between all other steps of a program, but nothing that a program does
  depends on the log.  So each step of one run is matched by the same step of the other: it gives
  the same value or the same interrupt and leaves machines that are the same up to their guises.
  By induction on the allowance and on the depth of calls this holds of whole invocations, and then
  of all programs of a calling point.
-/

import Erl.Proofs.Guise.Basic
import Erl.Proofs.Machine.Exec

namespace Erl.Guise

open Respelling

variable {g : Guise}

/-- A message that both machines record. -/
theorem record_parallel (severity : Severity) (program message : String) :
    Exec.Parallel g.SameMachine (Exec.record severity program message)
      (Exec.record severity program message) :=
  .modify fun _ _ hm => hm.withLog (hm.log.record severity (some program) rfl)

section Expressions

variable {img img' : Image} (h : g.SameImage img img')
include h

theorem callRoutine_parallel (f : Builtin) (args : List Value) :
    Exec.Parallel g.SameMachine (callRoutine img f args) (callRoutine img' f args) := by
  unfold callRoutine
  rw [h.routines]
  split
  · exact .pure _
  · next xs _ =>
    refine .getBind fun m m' hm => ?_
    rw [hm.generator]
    -- both draw from the same generator and go on with the same one
    generalize img'.routines f xs m'.generator = r
    obtain ⟨reply, generator⟩ := r
    have hdrawn : g.SameMachine { m with generator } { m' with generator } :=
      ⟨hm.store, hm.log, rfl⟩
    cases reply with
    | value x => exact .ok _ hdrawn
    | refused e => exact .ok _ hdrawn
    | breakdown => exact .error _ hdrawn

omit h in
theorem callMessage_parallel (program : String) (f : MessageFunction) (args : List Value) :
    Exec.Parallel g.SameMachine (callMessage program f args) (callMessage program f args) := by
  unfold callMessage
  cases f with
  | fatalHalt => exact .bind (record_parallel _ _ _) fun _ => .throw _
  | severe => exact .bind (record_parallel _ _ _) fun _ => .pure _
  | warning => exact .bind (record_parallel _ _ _) fun _ => .pure _

theorem callTrend_same (f : TrendFunction) (args : List Value) :
    callTrend img f args = callTrend img' f args := by
  unfold callTrend
  rw [h.trends, h.timestepHours]

theorem callCurve_same (args : List Value) : callCurve img args = callCurve img' args := by
  unfold callCurve
  rw [h.curves]

theorem applyBuiltin_parallel (program : String) (f : Builtin) (args : List Value) :
    Exec.Parallel g.SameMachine (applyBuiltin img program f args)
      (applyBuiltin img' program f args) := by
  cases f with
  | math f => exact callRoutine_parallel h _ _
  | air f => exact callRoutine_parallel h _ _
  | message f => exact callMessage_parallel program f args
  | trend f =>
    rw [applyBuiltin, applyBuiltin, callTrend_same h]
    exact .pure _
  | curveValue =>
    rw [applyBuiltin, applyBuiltin, callCurve_same h]
    exact .pure _

theorem apply_parallel (program : String) (o : Operation) (args : List Value) :
    Exec.Parallel g.SameMachine (o.apply img program args) (o.apply img' program args) := by
  unfold Operation.apply
  split
  · exact .pure _
  · exact .pure _
  · exact .pure _
  · split
    · exact applyBuiltin_parallel h program _ args
    · exact .pure _
  · exact .pure _

omit h in
theorem read_parallel {sub sub' : NodeId → Exec Value}
    (hsub : ∀ id, Exec.Parallel g.SameMachine (sub id) (sub' id)) (o : Operand) :
    Exec.Parallel g.SameMachine (o.read sub) (o.read sub') := by
  cases o with
  | constant l => exact .pure _
  | trendRef id => exact .pure _
  | node id => exact hsub id
  | variableRef id =>
    refine .getBind fun m m' hm => ?_
    rw [value_eq hm.store]
    exact .ok _ hm

omit h in
theorem readOperands_parallel {sub sub' : NodeId → Exec Value}
    (hsub : ∀ id, Exec.Parallel g.SameMachine (sub id) (sub' id)) (operands : List Operand) :
    Exec.Parallel g.SameMachine (readOperands sub operands) (readOperands sub' operands) := by
  induction operands with
  | nil => exact .pure _
  | cons o rest ih =>
    unfold readOperands
    refine .bind (read_parallel hsub o) fun v => ?_
    split
    · exact .pure _
    · refine .bind ih fun result => ?_
      cases result <;> exact .pure _

theorem node_parallel (program : String) {sub sub' : NodeId → Exec Value}
    (hsub : ∀ id, Exec.Parallel g.SameMachine (sub id) (sub' id)) (n : Node) :
    Exec.Parallel g.SameMachine (n.evaluate img program sub) (n.evaluate img' program sub') := by
  unfold Node.evaluate
  split
  · exact read_parallel hsub _
  · exact .pure _
  · refine .bind (readOperands_parallel hsub _) fun result => ?_
    cases result with
    | error v => exact .pure _
    | ok args => exact apply_parallel h program _ args

theorem evaluate_parallel (program : String) (id : NodeId) :
    Exec.Parallel g.SameMachine (img.evaluate program id) (img'.evaluate program id) := by
  -- operands that are nodes stand before the node itself
  induction id using Nat.strongRecOn with
  | ind id ih =>
    rw [Image.evaluate, Image.evaluate, h.nodes]
    cases img'.nodes[id]? with
    | none => exact .pure _
    | some n =>
      refine node_parallel h program (fun sub => ?_) n
      split
      · next hlt => exact ih sub hlt
      · exact .pure _

end Expressions

/-! ## Lines -/

variable (g) in
/-- Two ways to run subroutines, or none because the depth is used up. -/
def SameCalls (call call' : Option (ProgramId → Exec Ending)) : Prop :=
  Option.Rel (fun run run' => ∀ id, Exec.Parallel g.SameMachine (run id) (run' id)) call call'

section Lines

variable {img img' : Image} (h : g.SameImage img img') {p p' : Program} (hp : g.SameProgram p p')
include h hp

theorem reportError_parallel {line line' : ReadyLine} (hline : g.SameLine line line') (v : Value) :
    Exec.Parallel g.SameMachine (reportError img p line v) (reportError img' p' line' v) := by
  cases v with
  | error message =>
    rw [reportError, reportError, h.left.errors, h.right.errors, hp.name, hline.number]
    intro m m' hm
    -- each machine records the message or not; the four combinations are those of `report`
    have hreport := hm.withLog (hm.log.report (some p'.name)
      ("line " ++ Nat.repr line'.location.line ++ ": " ++ message))
    cases hleft : g.left.errors <;> cases hright : g.right.errors <;>
      · rw [hleft, hright] at hreport
        exact .ok _ hreport
  | null => exact .pure _
  | number x => exact .pure _
  | text s => exact .pure _
  | array => exact .pure _
  | variableRef id => exact .pure _
  | trendRef id => exact .pure _

theorem noteLine_parallel {line line' : ReadyLine} (hline : g.SameLine line line')
    (v : Option Value) :
    Exec.Parallel g.SameMachine (noteLine img p line v) (noteLine img' p' line' v) := by
  rw [noteLine, noteLine, h.left.lines, h.right.lines, hp.name, hline.number]
  intro m m' hm
  have he : g.executed ⟨p'.name, line'.location.line, line.text, v⟩
      = g.executed ⟨p'.name, line'.location.line, line'.text, v⟩ :=
    congrArg (ExecutedLine.mk _ _ · v) hline.text
  have hnote := hm.withLog (hm.log.note he)
  cases hleft : g.left.lines <;> cases hright : g.right.lines <;>
    · rw [hleft, hright] at hnote
      exact .ok _ hnote

theorem evaluateLine_parallel {line line' : ReadyLine} (hline : g.SameLine line line')
    (e : NodeId) :
    Exec.Parallel g.SameMachine (evaluateLine img p line e) (evaluateLine img' p' line' e) := by
  unfold evaluateLine
  rw [hp.name]
  refine .bind (evaluate_parallel h p'.name e) fun v => ?_
  refine .bind (reportError_parallel h hp hline v) fun _ => ?_
  exact .bind (noteLine_parallel h hp hline (some v)) fun _ => .pure _

omit h hp in
theorem assign_parallel (target : VariableId) (v : Value) :
    Exec.Parallel g.SameMachine (assign target v) (assign target v) :=
  .modify fun _ _ hm => hm.withStore (set_congr hm.store target v)

theorem callSubroutine_parallel {call call' : Option (ProgramId → Exec Ending)}
    (hcall : g.SameCalls call call') (callee : ProgramId) :
    Exec.Parallel g.SameMachine (callSubroutine img p call callee)
      (callSubroutine img' p' call' callee) := by
  unfold callSubroutine
  rw [h.limits, hp.name]
  cases hcall with
  | some hcall => exact hcall callee
  | none => exact .bind (record_parallel _ _ _) fun _ => .pure _

theorem enterLoop_parallel (budget index : Nat) :
    Exec.Parallel g.SameMachine (enterLoop img p budget index)
      (enterLoop img' p' budget index) := by
  unfold enterLoop
  rw [h.limits, hp.name]
  cases budget with
  | succ budget => exact .pure _
  | zero => exact .bind (record_parallel _ _ _) fun _ => .pure _

/-- One instruction of one program is matched by that of the other. -/
theorem runLine_parallel {call call' : Option (ProgramId → Exec Ending)}
    (hcall : g.SameCalls call call') (budget index : Nat) {line line' : ReadyLine}
    (hline : g.SameLine line line') :
    Exec.Parallel g.SameMachine (runLine img p call budget index line)
      (runLine img' p' call' budget index line') := by
  unfold runLine
  rw [hline.instruction]
  cases line'.instruction with
  | set target e =>
    refine .bind (evaluateLine_parallel h hp hline e) fun v => ?_
    exact .bind (assign_parallel target v) fun _ => .pure _
  | run callee =>
    refine .bind (noteLine_parallel h hp hline none) fun _ => ?_
    refine .bind (callSubroutine_parallel h hp hcall callee) fun status => ?_
    cases status <;> exact .pure _
  | return_ => exact .bind (noteLine_parallel h hp hline none) fun _ => .pure _
  | if_ e next => exact .bind (evaluateLine_parallel h hp hline e) fun v => .pure _
  | elseIf e next stop => exact .pure _
  | else_ stop => exact .pure _
  | endIf => exact .pure _
  | while_ e stop =>
    refine .bind (evaluateLine_parallel h hp hline e) fun v => ?_
    split
    · exact enterLoop_parallel h hp budget index
    · exact .pure _
  | endWhile start => exact .pure _

theorem seekLine_parallel (budget index : Nat) :
    Exec.Parallel g.SameMachine (seekLine img p budget index)
      (seekLine img' p' budget index) := by
  unfold seekLine
  have hline := hp.line index
  generalize p.lines[index]? = x at hline
  generalize p'.lines[index]? = y at hline
  cases hline with
  | none => exact .pure _
  | @some line line' hline =>
    dsimp only
    rw [hline.instruction]
    cases line'.instruction with
    | elseIf e next stop => exact .bind (evaluateLine_parallel h hp hline e) fun v => .pure _
    | set target e => exact .pure _
    | run callee => exact .pure _
    | return_ => exact .pure _
    | if_ e next => exact .pure _
    | else_ stop => exact .pure _
    | endIf => exact .pure _
    | while_ e stop => exact .pure _
    | endWhile start => exact .pure _

theorem step_parallel {call call' : Option (ProgramId → Exec Ending)}
    (hcall : g.SameCalls call call') (budget : Nat) (cursor : Cursor) :
    Exec.Parallel g.SameMachine (step img p call budget cursor)
      (step img' p' call' budget cursor) := by
  cases cursor with
  | seek index => exact seekLine_parallel h hp budget index
  | run index =>
    unfold step
    have hline := hp.line index
    dsimp only
    generalize p.lines[index]? = x at hline
    generalize p'.lines[index]? = y at hline
    cases hline with
    | none => exact .pure _
    | some hline => exact runLine_parallel h hp hcall budget index hline

theorem walk_parallel {call call' : Option (ProgramId → Exec Ending)}
    (hcall : g.SameCalls call call') (steps budget : Nat) (cursor : Cursor) :
    Exec.Parallel g.SameMachine (walk img p call steps budget cursor)
      (walk img' p' call' steps budget cursor) := by
  -- both walks have the same allowance and come to the same line with the same budget
  induction steps generalizing budget cursor with
  | zero => exact .throw _
  | succ steps ih =>
    rw [walk, walk]
    refine .bind (step_parallel h hp hcall budget cursor) fun progress => ?_
    cases progress with
    | next budget cursor => exact ih budget cursor
    | halt status => exact .pure _

end Lines

/-! ## Programs -/

section Programs

variable {img img' : Image} (h : g.SameImage img img')
include h

theorem start_parallel {call call' : Option (ProgramId → Exec Ending)}
    (hcall : g.SameCalls call call') (id : ProgramId) :
    Exec.Parallel g.SameMachine (img.start call id) (img'.start call' id) := by
  unfold Image.start
  have hprogram := h.program id
  generalize img.programs[id]? = x at hprogram
  generalize img'.programs[id]? = y at hprogram
  cases hprogram with
  | none => exact .pure _
  | some hp =>
    dsimp only
    rw [h.limits, hp.size]
    exact walk_parallel h hp hcall _ _ _

theorem invoke_parallel (depth : Nat) (id : ProgramId) :
    Exec.Parallel g.SameMachine (img.invoke depth id) (img'.invoke depth id) := by
  -- at depth zero neither can call a subroutine; above it they call what the hypothesis is about
  induction depth generalizing id with
  | zero => exact start_parallel h .none id
  | succ depth ih => exact start_parallel h (.some ih) id

theorem runMain_parallel (id : ProgramId) :
    Exec.Parallel g.SameMachine (img.runMain id) (img'.runMain id) := by
  rw [Image.runMain, Image.runMain, h.limits]
  exact invoke_parallel h _ id

theorem programName_same (id : ProgramId) : img.programName id = img'.programName id := by
  unfold Image.programName
  have hprogram := h.program id
  generalize img.programs[id]? = x at hprogram
  generalize img'.programs[id]? = y at hprogram
  cases hprogram with
  | none => rfl
  | some hp => exact hp.name

/-- All programs of a calling point end alike, up to the one that ends the run. -/
theorem runAll_same {m m' : Machine} (hm : g.SameMachine m m') (programs : List ProgramId) :
    (img.runAll m programs).1 = (img'.runAll m' programs).1
      ∧ (img.runAll m programs).2.1 = (img'.runAll m' programs).2.1
      ∧ g.SameMachine (img.runAll m programs).2.2 (img'.runAll m' programs).2.2 := by
  induction programs generalizing m m' with
  | nil => exact ⟨rfl, rfl, hm⟩
  | cons id rest ih =>
    have hends := runMain_parallel h id m m' hm
    rw [Image.runAll, Image.runAll, programName_same h]
    dsimp only
    generalize img.runMain id m = r at hends
    generalize img'.runMain id m' = r' at hends
    cases hends with
    | error e hnext => exact ⟨rfl, rfl, hnext⟩
    | ok status hnext =>
      obtain ⟨houtcomes, hstopped, hmachine⟩ := ih hnext
      exact ⟨congrArg (_ :: ·) houtcomes, hstopped, hmachine⟩

end Programs

end Erl.Guise
