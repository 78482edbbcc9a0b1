/-
  Erl.Proofs.Machine.Footprint

  What code mentions, and what its runs are made of.

  The footprint of a program lists the variables that its lines and the lines of the subroutines in
  its reach read and assign, and the built-in functions that they call.  An invocation is made of
  reads, calls, assignments and messages within the footprint.  So a law of computations that holds
  of these, and of computations one after another, holds of the invocation, at any depth of calls.
-/

import Mathlib.Logic.Relation
import Erl.Proofs.Expr.Arity
import Erl.Proofs.Machine.Termination
import Erl.Proofs.Store

namespace Erl

/-! ## What code mentions -/

/-- Variables that are read, variables that are assigned, and functions that are called. -/
structure Footprint where
  reads : VariableId → Prop
  writes : VariableId → Prop
  uses : Builtin → Prop

namespace Image

/-- A node stands in an expression. -/
inductive HasNode (img : Image) (n : Node) : NodeId → Prop where
  | root {e : NodeId} : img.nodes[e]? = some n → HasNode img n e
  | operand {e sub : NodeId} {outer : Node} : img.nodes[e]? = some outer →
      .node sub ∈ outer.operands → HasNode img n sub → HasNode img n e

/-- A line of a program runs a subroutine. -/
def Calls (img : Image) (caller callee : ProgramId) : Prop :=
  ∃ p line, img.programs[caller]? = some p ∧ line ∈ p.lines ∧ line.instruction = .run callee

/-- A line stands in a program or in a subroutine within its reach. -/
def HasLine (img : Image) (id : ProgramId) (line : ReadyLine) : Prop :=
  ∃ current p, Relation.ReflTransGen img.Calls id current
    ∧ img.programs[current]? = some p ∧ line ∈ p.lines

/-- A node stands in an expression of a program or of a subroutine within its reach. -/
def Evaluates (img : Image) (id : ProgramId) (n : Node) : Prop :=
  ∃ line e, img.HasLine id line ∧ line.instruction.expression? = some e ∧ img.HasNode n e

/-- What a program and the subroutines within its reach mention. -/
def footprint (img : Image) (id : ProgramId) : Footprint where
  reads v := ∃ n, img.Evaluates id n ∧ .variableRef v ∈ n.operands
  writes v := ∃ line e, img.HasLine id line ∧ line.instruction = .set v e
  uses f := ∃ n, img.Evaluates id n ∧ n.operation = .call f

end Image

namespace Footprint

/-- One footprint lies within another. -/
structure Within (s t : Footprint) : Prop where
  reads : ∀ v, s.reads v → t.reads v
  writes : ∀ v, s.writes v → t.writes v
  uses : ∀ f, s.uses f → t.uses f

end Footprint

/-- A subroutine mentions nothing that its callers do not mention. -/
theorem Image.Calls.within {img : Image} {id callee : ProgramId} (h : img.Calls id callee) :
    (img.footprint callee).Within (img.footprint id) := by
  have hline : ∀ line, img.HasLine callee line → img.HasLine id line := by
    rintro line ⟨current, p, hreach, hp, hmem⟩
    exact ⟨current, p, .head h hreach, hp, hmem⟩
  have hnode : ∀ n, img.Evaluates callee n → img.Evaluates id n := by
    rintro n ⟨line, e, hhas, he, hn⟩
    exact ⟨line, e, hline line hhas, he, hn⟩
  refine ⟨?_, ?_, ?_⟩
  · rintro v ⟨n, hn, hmem⟩
    exact ⟨n, hnode n hn, hmem⟩
  · rintro v ⟨line, e, hhas, hset⟩
    exact ⟨line, e, hline line hhas, hset⟩
  · rintro f ⟨n, hn, hcall⟩
    exact ⟨n, hnode n hn, hcall⟩

/-! ## Footprints from lists -/

/-- The variable that an instruction assigns. -/
def Instruction.target? {τ ε σ : Type} : Instruction τ ε σ → Option τ
  | set target _ => some target
  | _ => none

/-- The subroutine that an instruction runs. -/
def Instruction.subroutine? {τ ε σ : Type} : Instruction τ ε σ → Option σ
  | run subroutine => some subroutine
  | _ => none

/-- The node that an operand refers to. -/
def Operand.node? : Operand → Option NodeId
  | node id => some id
  | _ => none

namespace Image

variable (img : Image) (programs : List ProgramId) (nodes : List NodeId)

/-- The lines of programs. -/
def linesOf : List ReadyLine :=
  programs.flatMap fun id => (img.programs[id]?.map fun p => p.lines.toList).getD []

/-- The nodes at positions. -/
def nodesAt : List Node :=
  nodes.filterMap (img.nodes[·]?)

/-- The variables that lines of programs assign. -/
def targetsOf : List VariableId :=
  (img.linesOf programs).filterMap fun line => line.instruction.target?

/-- The operands of the nodes at positions. -/
def operandsAt : List Operand :=
  (img.nodesAt nodes).flatMap Node.operands

/-- The operations of the nodes at positions. -/
def operationsAt : List Operation :=
  (img.nodesAt nodes).map Node.operation

/-- What the lines of programs and the nodes at positions mention. -/
def listed : Footprint where
  reads v := .variableRef v ∈ img.operandsAt nodes
  writes v := v ∈ img.targetsOf programs
  uses f := .call f ∈ img.operationsAt nodes

/-- Whether programs call only one another, evaluate only nodes at positions in a list, and these
    refer only to one another. -/
def isClosed : Bool :=
  (img.linesOf programs).all (fun line =>
      line.instruction.subroutine?.all programs.contains
        && line.instruction.expression?.all nodes.contains)
    && (img.nodesAt nodes).all fun n => n.operands.all fun o => o.node?.all nodes.contains

variable {img programs nodes}

theorem mem_linesOf {id : ProgramId} {p : Program} {line : ReadyLine} (hid : id ∈ programs)
    (hp : img.programs[id]? = some p) (hline : line ∈ p.lines) : line ∈ img.linesOf programs :=
  List.mem_flatMap.2 ⟨id, hid, by simpa [hp] using hline⟩

section Closed

variable (h : img.isClosed programs nodes = true)
include h

/-- Calls do not lead out of closed lists. -/
theorem mem_of_calls {id current : ProgramId} (hid : id ∈ programs)
    (hcalls : Relation.ReflTransGen img.Calls id current) : current ∈ programs := by
  obtain ⟨hlines, -⟩ := Bool.and_eq_true_iff.1 h
  induction hcalls with
  | refl => exact hid
  | tail _ hcall ih =>
    obtain ⟨p, line, hp, hline, hrun⟩ := hcall
    have hclosed := List.all_eq_true.1 hlines line (mem_linesOf ih hp hline)
    rw [hrun] at hclosed
    simpa [Instruction.subroutine?, Instruction.expression?] using hclosed

/-- Operands do not lead out of closed lists. -/
theorem mem_nodesAt {n : Node} {e : NodeId} (hn : img.HasNode n e) (he : e ∈ nodes) :
    n ∈ img.nodesAt nodes := by
  obtain ⟨-, hnodes⟩ := Bool.and_eq_true_iff.1 h
  induction hn with
  | root hn => exact List.mem_filterMap.2 ⟨_, he, hn⟩
  | operand hn hsub _ ih =>
    have hclosed := List.all_eq_true.1 hnodes _ (List.mem_filterMap.2 ⟨_, he, hn⟩)
    have hlisted := List.all_eq_true.1 hclosed _ hsub
    exact ih (by simpa [Operand.node?] using hlisted)

/-- A program of a closed list mentions only what is listed. -/
theorem footprint_within_listed {id : ProgramId} (hid : id ∈ programs) :
    (img.footprint id).Within (img.listed programs nodes) := by
  have hline : ∀ line, img.HasLine id line → line ∈ img.linesOf programs := by
    rintro line ⟨current, p, hcalls, hp, hmem⟩
    exact mem_linesOf (mem_of_calls h hid hcalls) hp hmem
  have hevaluates : ∀ n, img.Evaluates id n → n ∈ img.nodesAt nodes := by
    rintro n ⟨line, e, hhas, he, hn⟩
    -- the positions of the expressions of lines are in the list
    have hclosed := List.all_eq_true.1 (Bool.and_eq_true_iff.1 h).1 line (hline line hhas)
    rw [he] at hclosed
    obtain ⟨-, he⟩ := Bool.and_eq_true_iff.1 hclosed
    exact mem_nodesAt h hn (by simpa using he)
  refine ⟨?_, ?_, ?_⟩
  · rintro v ⟨n, hn, hmem⟩
    exact List.mem_flatMap.2 ⟨n, hevaluates n hn, hmem⟩
  · rintro v ⟨line, e, hhas, hset⟩
    exact List.mem_filterMap.2 ⟨line, hline line hhas, by rw [hset]; rfl⟩
  · rintro f ⟨n, hn, hcall⟩
    exact List.mem_map.2 ⟨n, hevaluates n hn, hcall⟩

end Closed

end Image

/-! ## Laws of computations -/

/-- A property of computations that holds of all that code of a footprint is made of, and of
    computations one after another. -/
structure Footprint.Law (s : Footprint) (img : Image) (Q : (α : Type) → Exec α → Prop) : Prop where
  pure {α : Type} (a : α) : Q α (Pure.pure a)
  bind {α β : Type} {x : Exec α} {f : α → Exec β} : Q α x → (∀ a, Q β (f a)) → Q β (x >>= f)
  value {v : VariableId} : s.reads v → Q Value (do return (← get).store.value v)
  call (program : String) {f : Builtin} (args : List Value) : s.uses f →
    Q Value (applyBuiltin img program f args)
  report {severity : Severity} (program message : String) : severity ≠ .fatal →
    Q Unit (Exec.record severity program message)
  note (line : ExecutedLine) :
    Q Unit (modify fun m => { m with log := m.log.recordLine line })
  assign {target : VariableId} (v : Value) : s.writes target → Q Unit (Erl.assign target v)
  cutOff : Q Ending (throw .outOfSteps)

namespace Footprint.Law

variable {img : Image} {Q : (α : Type) → Exec α → Prop}

/-- Less code obeys the same law. -/
theorem mono {s t : Footprint} (h : t.Law img Q) (hwithin : s.Within t) : s.Law img Q :=
  { h with
    value := fun hv => h.value (hwithin.reads _ hv)
    call := fun program f args hf => h.call program args (hwithin.uses f hf)
    assign := fun v hv => h.assign v (hwithin.writes _ hv) }

variable {s : Footprint} (h : s.Law img Q)
include h

/-! ### Expressions -/

section Expressions

variable {program : String} {sub : NodeId → Exec Value}

theorem read {o : Operand} (hvariable : ∀ v, o = .variableRef v → s.reads v)
    (hsub : ∀ e, o = .node e → Q Value (sub e)) : Q Value (o.read sub) := by
  cases o with
  | constant l => exact h.pure _
  | variableRef v => exact h.value (hvariable v rfl)
  | trendRef t => exact h.pure _
  | node e => exact hsub e rfl

theorem readOperands {os : List Operand} (hvariable : ∀ v, .variableRef v ∈ os → s.reads v)
    (hsub : ∀ e, .node e ∈ os → Q Value (sub e)) : Q _ (readOperands sub os) := by
  induction os with
  | nil => exact h.pure _
  | cons o rest ih =>
    rw [Erl.readOperands]
    have hfirst : Q Value (o.read sub) :=
      h.read (fun v hv => hvariable v (by simp [hv])) (fun e he => hsub e (by simp [he]))
    have hrest := ih (fun v hv => hvariable v (List.mem_cons_of_mem o hv))
      (fun e he => hsub e (List.mem_cons_of_mem o he))
    refine h.bind hfirst fun v => ?_
    -- an error value ends the reading
    split
    · exact h.pure _
    · refine h.bind hrest fun r => ?_
      split <;> exact h.pure _

theorem apply {o : Operation} (huses : ∀ f, o = .call f → s.uses f) (args : List Value) :
    Q Value (o.apply img program args) := by
  unfold Operation.apply
  split
  · exact h.pure _
  · exact h.pure _
  · exact h.pure _
  · split
    · exact h.call program _ (huses _ rfl)
    · exact h.pure _
  · exact h.pure _

theorem node {n : Node} (hvariable : ∀ v, .variableRef v ∈ n.operands → s.reads v)
    (huses : ∀ f, n.operation = .call f → s.uses f)
    (hsub : ∀ e, .node e ∈ n.operands → Q Value (sub e)) :
    Q Value (n.evaluate img program sub) := by
  unfold Node.evaluate
  split
  · next o rest _ hoperands =>
    rw [hoperands] at hvariable hsub
    exact h.read (fun v hv => hvariable v (by simp [hv])) (fun e he => hsub e (by simp [he]))
  · exact h.pure _
  · refine h.bind (h.readOperands hvariable hsub) fun r => ?_
    split
    · exact h.pure _
    · exact h.apply huses _

/-- The evaluation of an expression whose nodes lie within the footprint. -/
theorem evaluate {e : NodeId}
    (hnodes : ∀ n, img.HasNode n e → (∀ v, .variableRef v ∈ n.operands → s.reads v)
      ∧ ∀ f, n.operation = .call f → s.uses f) :
    Q Value (img.evaluate program e) := by
  induction e using Nat.strongRecOn with
  | ind e ih =>
    rw [Image.evaluate]
    split
    · exact h.pure _
    · next n hn =>
      obtain ⟨hvariable, huses⟩ := hnodes n (.root hn)
      refine h.node hvariable huses fun sub hsub => ?_
      -- a reference that does not lead back counts as one to a missing node
      split
      · next hlt => exact ih sub hlt fun n' hn' => hnodes n' (.operand hn hsub hn')
      · exact h.pure _

end Expressions

/-! ### Steps -/

section Steps

variable {p : Program} {call : Option (ProgramId → Exec Ending)}

theorem reportError (line : ReadyLine) (v : Value) : Q Unit (reportError img p line v) := by
  unfold Erl.reportError
  split
  · split
    · exact h.report _ _ (by decide)
    · exact h.pure _
  · exact h.pure _

theorem noteLine (line : ReadyLine) (v : Option Value) : Q Unit (noteLine img p line v) := by
  unfold Erl.noteLine
  split
  · exact h.note _
  · exact h.pure _

theorem enterLoop (budget line : Nat) : Q Progress (enterLoop img p budget line) := by
  cases budget with
  | zero => exact h.bind (h.report _ _ (by decide)) fun _ => h.pure _
  | succ budget => exact h.pure _

theorem callSubroutine {callee : ProgramId} (hcall : ∀ f ∈ call, Q Ending (f callee)) :
    Q Ending (callSubroutine img p call callee) := by
  cases call with
  | none => exact h.bind (h.report _ _ (by decide)) fun _ => h.pure _
  | some f => exact hcall f rfl

end Steps

end Footprint.Law

/-! ## Invocations -/

section Invocations

variable {img : Image} {Q : (α : Type) → Exec α → Prop} {id : ProgramId} {p : Program}
  (h : (img.footprint id).Law img Q) (hp : img.programs[id]? = some p)
include h hp

/-- The evaluation of the expression of a line. -/
theorem evaluateLine_obeys {line : ReadyLine} (hline : line ∈ p.lines) {e : NodeId}
    (he : line.instruction.expression? = some e) : Q Value (evaluateLine img p line e) := by
  have hhas : img.HasLine id line := ⟨id, p, .refl, hp, hline⟩
  have hvalue : Q Value (img.evaluate p.name e) := by
    refine h.evaluate fun n hn => ⟨fun v hv => ?_, fun f hf => ?_⟩
    · exact ⟨n, ⟨line, e, hhas, he, hn⟩, hv⟩
    · exact ⟨n, ⟨line, e, hhas, he, hn⟩, hf⟩
  refine h.bind hvalue fun v => ?_
  refine h.bind (h.reportError line v) fun _ => ?_
  exact h.bind (h.noteLine line _) fun _ => h.pure _

variable {call : Option (ProgramId → Exec Ending)}
  (hcall : ∀ f ∈ call, ∀ callee, img.Calls id callee → Q Ending (f callee))
include hcall

theorem runLine_obeys {line : ReadyLine} (hline : line ∈ p.lines) (budget index : Nat) :
    Q Progress (runLine img p call budget index line) := by
  have hvalue : ∀ e, line.instruction.expression? = some e →
      Q Value (evaluateLine img p line e) := fun e he => evaluateLine_obeys h hp hline he
  unfold runLine
  split
  · next target e hi =>
    refine h.bind (hvalue e (by rw [hi]; rfl)) fun v => ?_
    exact h.bind (h.assign v ⟨line, e, ⟨id, p, .refl, hp, hline⟩, hi⟩) fun _ => h.pure _
  · next callee hi =>
    refine h.bind (h.noteLine _ _) fun _ => ?_
    have hsub := h.callSubroutine (p := p) fun f hf => hcall f hf callee ⟨p, line, hp, hline, hi⟩
    refine h.bind hsub fun status => ?_
    split <;> exact h.pure _
  · exact h.bind (h.noteLine _ _) fun _ => h.pure _
  · next e _ hi => exact h.bind (hvalue e (by rw [hi]; rfl)) fun _ => h.pure _
  · exact h.pure _
  · exact h.pure _
  · exact h.pure _
  · next e _ hi =>
    refine h.bind (hvalue e (by rw [hi]; rfl)) fun v => ?_
    split
    · exact h.enterLoop _ _
    · exact h.pure _
  · exact h.pure _

theorem step_obeys (budget : Nat) (cursor : Cursor) :
    Q Progress (step img p call budget cursor) := by
  cases cursor with
  | run index =>
    rw [step]
    split
    · next line hline => exact runLine_obeys h hp hcall (Array.mem_of_getElem? hline) budget index
    · exact h.pure _
  | seek index =>
    rw [step, seekLine]
    split
    · next line hline =>
      split
      · next e _ _ hi =>
        have hmem : line ∈ p.lines := Array.mem_of_getElem? hline
        exact h.bind (evaluateLine_obeys h hp hmem (by rw [hi]; rfl)) fun _ => h.pure _
      · exact h.pure _
    · exact h.pure _

theorem walk_obeys (steps budget : Nat) (cursor : Cursor) :
    Q Ending (walk img p call steps budget cursor) := by
  induction steps generalizing budget cursor with
  | zero => exact h.cutOff
  | succ steps ih =>
    rw [walk]
    refine h.bind (step_obeys h hp hcall budget cursor) fun progress => ?_
    cases progress with
    | next budget' cursor' => exact ih budget' cursor'
    | halt status => exact h.pure _

end Invocations

theorem start_obeys {img : Image} {Q : (α : Type) → Exec α → Prop} {id : ProgramId}
    (h : (img.footprint id).Law img Q) {call : Option (ProgramId → Exec Ending)}
    (hcall : ∀ f ∈ call, ∀ callee, img.Calls id callee → Q Ending (f callee)) :
    Q Ending (img.start call id) := by
  unfold Image.start
  split
  · exact h.pure _
  · next p hp => exact walk_obeys h hp hcall _ _ _

/-- A law of the footprint of a program holds of its invocations, at any depth of calls. -/
theorem Footprint.Law.invoke {img : Image} {Q : (α : Type) → Exec α → Prop} {id : ProgramId}
    (h : (img.footprint id).Law img Q) (depth : Nat) : Q Ending (img.invoke depth id) := by
  -- a subroutine mentions less than its caller, so the law holds of it one level deeper
  induction depth generalizing id with
  | zero => exact start_obeys h (by simp)
  | succ depth ih =>
    refine start_obeys h fun f hf callee hcalls => ?_
    cases hf
    exact ih (h.mono hcalls.within)

end Erl
