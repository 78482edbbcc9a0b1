/-
  Erl.Proofs.Machine.Change

  What running programs can change.

  An invocation draws random numbers, records messages, traces lines and assigns the targets of
  assignments; nothing else happens to the machine.  A fatal message is recorded at one place
  only, and the interrupt that it comes with ends everything: after it nothing is changed any
  more.  What runs keep, they keep because each of these changes does.
-/

import Mathlib.Logic.Relation
import Erl.Proofs.Machine.Termination
import Erl.Proofs.Store

namespace Erl

/-- A line of one of the programs assigns a variable. -/
def Image.Assigns (img : Image) (target : VariableId) : Prop :=
  ∃ (id : ProgramId) (p : Program) (line : ReadyLine) (e : NodeId),
    img.programs[id]? = some p ∧ line ∈ p.lines ∧ line.instruction = .set target e

namespace Machine

/-- One change that a program makes while it runs. -/
inductive Change (img : Image) (m : Machine) : Machine → Prop where
  | draw (generator : Generator) : Change img m { m with generator }
  | report {severity : Severity} (program message : String) : severity ≠ .fatal →
      Change img m { m with log := m.log.record severity (some program) message }
  | note (line : ExecutedLine) : Change img m { m with log := m.log.recordLine line }
  | assign {target : VariableId} (v : Value) : img.Assigns target →
      Change img m { m with store := m.store.set target v }

/-- The changes that a program makes one after another. -/
def Becomes (img : Image) : Machine → Machine → Prop :=
  Relation.ReflTransGen (Change img)

/-- A machine on which a fatal halt was recorded. -/
def halted (m : Machine) (program message : String) : Machine :=
  { m with log := m.log.record .fatal (some program) message }

/-- What a computation that starts from a machine ends with: the machine has changed, and after
    a request for a fatal halt there is one fatal message more, with the text of the request. -/
def EndsWith {α : Type} (img : Image) (m : Machine) : EStateM.Result Interrupt Machine α → Prop
  | .error (.fatal message) m' =>
    ∃ m₁ program, m.Becomes img m₁ ∧ m' = m₁.halted program message
  | .error _ m' => m.Becomes img m'
  | .ok _ m' => m.Becomes img m'

/-- What ends well from a later machine ends well from an earlier one. -/
theorem EndsWith.after {α : Type} {img : Image} {m m₁ : Machine}
    {r : EStateM.Result Interrupt Machine α} (h : m.Becomes img m₁) (hr : m₁.EndsWith img r) :
    m.EndsWith img r := by
  rcases r with ⟨a, m'⟩ | ⟨e, m'⟩
  · exact Relation.ReflTransGen.trans h hr
  · cases e with
    | fatal message =>
      obtain ⟨m₂, program, hbecomes, rfl⟩ := hr
      exact ⟨m₂, program, Relation.ReflTransGen.trans h hbecomes, rfl⟩
    | breakdown => exact Relation.ReflTransGen.trans h hr
    | outOfSteps => exact Relation.ReflTransGen.trans h hr

/-- An interrupt ends well for whatever was computed until then. -/
theorem EndsWith.error {α β : Type} {img : Image} {m m' : Machine} {e : Interrupt}
    (h : m.EndsWith img (.error e m' : EStateM.Result Interrupt Machine α)) :
    m.EndsWith img (.error e m' : EStateM.Result Interrupt Machine β) := by
  cases e <;> exact h

end Machine

/-- A computation that makes no other changes to the machine than programs make. -/
def Exec.Abides {α : Type} (img : Image) (x : Exec α) : Prop :=
  ∀ m : Machine, m.EndsWith img (x m)

namespace Exec.Abides

variable {α β : Type} {img : Image}

theorem pure (a : α) : Abides img (Pure.pure a : Exec α) :=
  fun _ => Relation.ReflTransGen.refl

theorem bind {x : Exec α} {f : α → Exec β} (hx : Abides img x) (hf : ∀ a, Abides img (f a)) :
    Abides img (x >>= f) := by
  intro m
  have hm := hx m
  cases hxm : x m with
  | ok a m₁ =>
    rw [hxm] at hm
    rw [Exec.bind_ok hxm]
    exact .after hm (hf a m₁)
  | error e m₁ =>
    rw [hxm] at hm
    rw [Exec.bind_error hxm]
    exact .error hm

/-- What a computation does with the machine that it starts from. -/
theorem getBind {f : Machine → Exec β} (hf : ∀ m : Machine, m.EndsWith img (f m m)) :
    Abides img (MonadState.get >>= f) :=
  hf

theorem throw {e : Interrupt} (he : ∀ message, e ≠ .fatal message) :
    Abides img (throw e : Exec α) := by
  intro m
  cases e with
  | fatal message => exact absurd rfl (he message)
  | breakdown => exact Relation.ReflTransGen.refl
  | outOfSteps => exact Relation.ReflTransGen.refl

/-- A change of the machine that programs make. -/
theorem modify {f : Machine → Machine} (hf : ∀ m : Machine, m.Change img (f m)) :
    Abides img (modify f : Exec PUnit) :=
  fun m => .single (hf m)

theorem record {severity : Severity} (h : severity ≠ .fatal) (program message : String) :
    Abides img (Exec.record severity program message) :=
  modify fun _ => .report program message h

end Exec.Abides

/-! ## Expressions -/

section Expressions

variable {img : Image} {program : String}

theorem callRoutine_abides (f : Builtin) (args : List Value) :
    (callRoutine img f args).Abides img := by
  unfold callRoutine
  split
  · exact .pure _
  · next xs _ =>
    refine .getBind fun m => ?_
    -- the generator is replaced whatever the routine replies
    generalize img.routines f xs m.generator = r
    obtain ⟨reply, generator⟩ := r
    refine .after (.single (.draw generator)) ?_
    cases reply with
    | value x => exact Exec.Abides.pure (Value.number x) _
    | refused e => exact Exec.Abides.pure (Value.ofFault (.domain f e)) _
    | breakdown => exact Exec.Abides.throw (by simp) _

theorem callMessage_abides (f : MessageFunction) (args : List Value) :
    (callMessage program f args).Abides img := by
  unfold callMessage
  cases f with
  | fatalHalt => exact fun m => ⟨m, program, .refl, rfl⟩
  | severe => exact .bind (.record (by decide) _ _) fun _ => .pure _
  | warning => exact .bind (.record (by decide) _ _) fun _ => .pure _

theorem applyBuiltin_abides (f : Builtin) (args : List Value) :
    (applyBuiltin img program f args).Abides img := by
  cases f with
  | math f => exact callRoutine_abides _ _
  | air f => exact callRoutine_abides _ _
  | message f => exact callMessage_abides _ _
  | trend f => exact .pure _
  | curveValue => exact .pure _

theorem Operation.apply_abides (o : Operation) (args : List Value) :
    (o.apply img program args).Abides img := by
  unfold Operation.apply
  split
  · exact .pure _
  · exact .pure _
  · exact .pure _
  · split
    · exact applyBuiltin_abides _ _
    · exact .pure _
  · exact .pure _

section Operands

variable {sub : NodeId → Exec Value} (hsub : ∀ id, (sub id).Abides img)
include hsub

theorem Operand.read_abides (o : Operand) : (o.read sub).Abides img := by
  cases o with
  | constant l => exact .pure _
  | variableRef id => exact .getBind fun m => Exec.Abides.pure _ m
  | trendRef id => exact .pure _
  | node id => exact hsub id

theorem readOperands_abides (os : List Operand) : (readOperands sub os).Abides img := by
  induction os with
  | nil => exact .pure _
  | cons o rest ih =>
    rw [readOperands]
    refine .bind (Operand.read_abides hsub o) fun v => ?_
    split
    · exact .pure _
    · refine .bind ih fun r => ?_
      split <;> exact .pure _

theorem Node.evaluate_abides (n : Node) : (n.evaluate img program sub).Abides img := by
  unfold Node.evaluate
  split
  · exact Operand.read_abides hsub _
  · exact .pure _
  · refine .bind (readOperands_abides hsub _) fun r => ?_
    split
    · exact .pure _
    · exact Operation.apply_abides _ _

end Operands

theorem Image.evaluate_abides (id : NodeId) : (img.evaluate program id).Abides img := by
  induction id using Nat.strongRecOn with
  | ind id ih =>
    rw [Image.evaluate]
    split
    · exact .pure _
    · refine Node.evaluate_abides (fun sub => ?_) _
      split
      · next hlt => exact ih sub hlt
      · exact .pure _

end Expressions

/-! ## Steps -/

section Steps

variable {img : Image} {p : Program} {call : Option (ProgramId → Exec Ending)}

theorem reportError_abides (line : ReadyLine) (v : Value) :
    (reportError img p line v).Abides img := by
  unfold reportError
  split
  · split
    · exact .record (by decide) _ _
    · exact .pure _
  · exact .pure _

theorem noteLine_abides (line : ReadyLine) (v : Option Value) :
    (noteLine img p line v).Abides img := by
  unfold noteLine
  split
  · exact .modify fun _ => .note _
  · exact .pure _

theorem evaluateLine_abides (line : ReadyLine) (e : NodeId) :
    (evaluateLine img p line e).Abides img := by
  refine .bind (Image.evaluate_abides e) fun v => ?_
  refine .bind (reportError_abides line v) fun _ => ?_
  exact .bind (noteLine_abides line _) fun _ => .pure _

theorem enterLoop_abides (budget line : Nat) : (enterLoop img p budget line).Abides img := by
  cases budget with
  | zero => exact .bind (.record (by decide) _ _) fun _ => .pure _
  | succ budget => exact .pure _

theorem callSubroutine_abides (hcall : ∀ f ∈ call, ∀ id, (f id).Abides img)
    (callee : ProgramId) : (callSubroutine img p call callee).Abides img := by
  cases call with
  | none => exact .bind (.record (by decide) _ _) fun _ => .pure _
  | some f => exact hcall f rfl callee

/-- Running a line assigns at most the target of the line. -/
theorem runLine_abides (hcall : ∀ f ∈ call, ∀ id, (f id).Abides img) {line : ReadyLine}
    (hassigns : ∀ target e, line.instruction = .set target e → img.Assigns target)
    (budget index : Nat) : (runLine img p call budget index line).Abides img := by
  unfold runLine
  split
  · next target e hi =>
    refine .bind (evaluateLine_abides _ _) fun v => ?_
    exact .bind (.modify fun _ => .assign v (hassigns target e hi)) fun _ => .pure _
  · refine .bind (noteLine_abides _ _) fun _ => ?_
    refine .bind (callSubroutine_abides hcall _) fun status => ?_
    split <;> exact .pure _
  · exact .bind (noteLine_abides _ _) fun _ => .pure _
  · exact .bind (evaluateLine_abides _ _) fun _ => .pure _
  · exact .pure _
  · exact .pure _
  · exact .pure _
  · refine .bind (evaluateLine_abides _ _) fun v => ?_
    split
    · exact enterLoop_abides _ _
    · exact .pure _
  · exact .pure _

theorem seekLine_abides (budget index : Nat) : (seekLine img p budget index).Abides img := by
  unfold seekLine
  split
  · split
    · exact .bind (evaluateLine_abides _ _) fun _ => .pure _
    · exact .pure _
  · exact .pure _

/-- A step of a program makes only changes that programs make, if calls do. -/
theorem step_abides (hcall : ∀ f ∈ call, ∀ id, (f id).Abides img) {id : ProgramId}
    (hp : img.programs[id]? = some p) (budget : Nat) (cursor : Cursor) :
    (step img p call budget cursor).Abides img := by
  cases cursor with
  | run index =>
    rw [step]
    split
    · next line hline =>
      refine runLine_abides hcall (fun target e hi => ?_) budget index
      exact ⟨id, p, line, e, hp, Array.mem_of_getElem? hline, hi⟩
    · exact .pure _
  | seek index => exact seekLine_abides _ _

theorem walk_abides (hcall : ∀ f ∈ call, ∀ id, (f id).Abides img) {id : ProgramId}
    (hp : img.programs[id]? = some p) (steps budget : Nat) (cursor : Cursor) :
    (walk img p call steps budget cursor).Abides img := by
  induction steps generalizing budget cursor with
  | zero => exact .throw (by simp)
  | succ steps ih =>
    rw [walk]
    refine .bind (step_abides hcall hp budget cursor) fun progress => ?_
    cases progress with
    | next budget' cursor' => exact ih budget' cursor'
    | halt status => exact .pure _

end Steps

/-! ## Invocations -/

namespace Image

variable (img : Image)

theorem start_abides {call : Option (ProgramId → Exec Ending)}
    (hcall : ∀ f ∈ call, ∀ id, (f id).Abides img) (id : ProgramId) :
    (img.start call id).Abides img := by
  unfold start
  split
  · exact .pure _
  · next p hp => exact walk_abides hcall hp _ _ _

theorem calls_abide (depth : Nat) : ∀ f ∈ img.calls depth, ∀ id, (f id).Abides img := by
  induction depth with
  | zero => simp [calls]
  | succ depth ih =>
    intro f hf id
    cases hf
    rw [img.invoke_eq]
    exact img.start_abides ih id

/-- An invocation makes only changes that programs make, at any depth of calls. -/
theorem invoke_abides (depth : Nat) (id : ProgramId) : (img.invoke depth id).Abides img := by
  rw [img.invoke_eq]
  exact img.start_abides (img.calls_abide depth) id

end Image

/-! ## What changes keep -/

namespace Machine

variable {img : Image} {m m' : Machine}

/-- A change keeps every variable that no line assigns. -/
theorem Change.get? (h : m.Change img m') {id : VariableId} (hid : ¬ img.Assigns id) :
    m'.store.get? id = m.store.get? id := by
  cases h with
  | assign v htarget =>
    refine m.store.get?_set_of_ne ?_ v
    rintro rfl
    exact hid htarget
  | draw generator => rfl
  | report program message hs => rfl
  | note line => rfl

theorem Change.origin? (h : m.Change img m') (id : VariableId) :
    m'.store.origin? id = m.store.origin? id := by
  cases h with
  | assign v htarget => exact Store.origin?_set _ _ _ _
  | draw generator => rfl
  | report program message hs => rfl
  | note line => rfl

theorem Change.size (h : m.Change img m') : m'.store.size = m.store.size := by
  cases h with
  | assign v htarget => exact Store.size_set _ _ _
  | draw generator => rfl
  | report program message hs => rfl
  | note line => rfl

theorem Change.fatal (h : m.Change img m') :
    m'.log.ofSeverity .fatal = m.log.ofSeverity .fatal := by
  cases h with
  | report program message hs =>
    rw [Log.ofSeverity_record, if_neg hs, List.append_nil]
  | note line => exact Log.ofSeverity_recordLine _ _ _
  | assign v htarget => rfl
  | draw generator => rfl

/-- Programs keep every variable that no line assigns. -/
theorem Becomes.get? (h : m.Becomes img m') {id : VariableId} (hid : ¬ img.Assigns id) :
    m'.store.get? id = m.store.get? id := by
  induction h with
  | refl => rfl
  | tail _ hchange ih => exact (hchange.get? hid).trans ih

/-- Programs keep the origins of all variables. -/
theorem Becomes.origin? (h : m.Becomes img m') (id : VariableId) :
    m'.store.origin? id = m.store.origin? id := by
  induction h with
  | refl => rfl
  | tail _ hchange ih => exact (hchange.origin? id).trans ih

/-- Programs add no variables. -/
theorem Becomes.size (h : m.Becomes img m') : m'.store.size = m.store.size := by
  induction h with
  | refl => rfl
  | tail _ hchange ih => exact hchange.size.trans ih

/-- Programs that are not halted record no fatal message. -/
theorem Becomes.fatal (h : m.Becomes img m') :
    m'.log.ofSeverity .fatal = m.log.ofSeverity .fatal := by
  induction h with
  | refl => rfl
  | tail _ hchange ih => exact hchange.fatal.trans ih

end Machine

end Erl
