/-
  Erl.Proofs.Machine.Checked

  Evaluation in tables without loose ends.

  Evaluation has an answer for everything: a reference to a missing node and a wrong number of
  operands are errors, and a variable that does not exist reads as null.  `evaluateOr` is
  evaluation with something else, whatever it is, in place of these answers.  In a table whose
  references are in range and whose nodes fit their arities it makes no difference what that is:
  none of the answers is ever given.
-/

import Erl.Proofs.Machine.Change
import Erl.Proofs.Machine.Meaning

namespace Erl

/-! ## Tables without loose ends -/

/-- An operand refers to one of a number of variables, to one of a number of trends or to a
    node before a position. -/
def Operand.InRange (vars trends : Nat) (id : NodeId) : Operand → Prop
  | constant _ => True
  | variableRef v => v < vars
  | trendRef t => t < trends
  | node sub => sub < id

instance (vars trends : Nat) (id : NodeId) :
    (o : Operand) → Decidable (o.InRange vars trends id)
  | .constant _ => .isTrue trivial
  | .variableRef v => inferInstanceAs (Decidable (v < vars))
  | .trendRef t => inferInstanceAs (Decidable (t < trends))
  | .node sub => inferInstanceAs (Decidable (sub < id))

/-- A node takes its number of operands, and all of them are in range. -/
structure Node.InRange (vars trends : Nat) (id : NodeId) (n : Node) : Prop where
  arity : n.operation.arity.accepts n.operands.length = true
  operands : ∀ o ∈ n.operands, o.InRange vars trends id

/-- All nodes of a table are in range. -/
def NodesInRange (vars trends : Nat) (nodes : Array Node) : Prop :=
  ∀ (id : NodeId) (n : Node), nodes[id]? = some n → n.InRange vars trends id

/-- Nodes that are in range refer only to nodes before them. -/
theorem NodesInRange.isForest {vars trends : Nat} {nodes : Array Node}
    (h : NodesInRange vars trends nodes) : IsForest nodes := by
  intro id n hn o ho
  have hrange := (h id n hn).operands o ho
  cases o with
  | node sub => exact hrange
  | constant l => trivial
  | variableRef v => trivial
  | trendRef t => trivial

section Mono

variable {vars vars' trends trends' : Nat} (hv : vars ≤ vars')
  (ht : trends ≤ trends')
include hv ht

theorem Operand.InRange.mono {id id' : NodeId} {o : Operand} (h : o.InRange vars trends id)
    (hid : id ≤ id') : o.InRange vars' trends' id' := by
  cases o with
  | constant l => trivial
  | variableRef v => exact Nat.lt_of_lt_of_le h hv
  | trendRef t => exact Nat.lt_of_lt_of_le h ht
  | node sub => exact Nat.lt_of_lt_of_le h hid

/-- Nodes stay in range when variables and trends are added. -/
theorem NodesInRange.mono {nodes : Array Node} (h : NodesInRange vars trends nodes) :
    NodesInRange vars' trends' nodes := by
  intro id n hn
  have hrange := h id n hn
  exact ⟨hrange.arity, fun o ho => (hrange.operands o ho).mono hv ht (Nat.le_refl id)⟩

end Mono

/-- A node that is in range is added to others that are. -/
theorem NodesInRange.push {vars trends : Nat} {nodes : Array Node} {n : Node}
    (h : NodesInRange vars trends nodes) (hn : n.InRange vars trends nodes.size) :
    NodesInRange vars trends (nodes.push n) := by
  intro id n' hid
  rw [Array.getElem?_push] at hid
  split at hid
  · next heq =>
    cases hid
    exact heq ▸ hn
  · exact h id n' hid

/-! ## Evaluation with a trap -/

section Trap

variable (trap : Exec Value)

/-- The value of an operand; the trap stands for what is out of range. -/
def Operand.readOr (trends : Nat) (id : NodeId) (sub : NodeId → Exec Value) (o : Operand) :
    Exec Value := do
  let m ← get
  if o.InRange m.store.size trends id then o.read sub else trap

/-- The values of operands up to the first that is an error. -/
def readOperandsOr (trends : Nat) (id : NodeId) (sub : NodeId → Exec Value) :
    List Operand → Exec (Except Value (List Value))
  | [] => pure (.ok [])
  | o :: rest => do
    let v ← o.readOr trap trends id sub
    if v.isError then return .error v
    match ← readOperandsOr trends id sub rest with
    | .error e => return .error e
    | .ok vs => return .ok (v :: vs)

/-- The value of a node; the trap stands for a wrong number of operands. -/
def Node.evaluateOr (img : Image) (program : String) (id : NodeId) (sub : NodeId → Exec Value)
    (n : Node) : Exec Value :=
  match n.operation, n.operands with
  | .literal, [o] => o.readOr trap img.trends.size id sub
  | .literal, _ => trap
  | operation, operands => do
    match ← readOperandsOr trap img.trends.size id sub operands with
    | .error v => return v
    | .ok args =>
      if operation.arity.accepts args.length then operation.apply img program args else trap

/-- The value of the node at a position; the trap stands for a missing node. -/
def Image.evaluateOr (img : Image) (program : String) (id : NodeId) : Exec Value :=
  match img.nodes[id]? with
  | none => trap
  | some n =>
    n.evaluateOr trap img program id fun sub =>
      if sub < id then img.evaluateOr program sub else trap
termination_by id

end Trap

section Untrapped

variable (trap : Exec Value) {img : Image} {vars : Nat} {id : NodeId}
  {sub sub' : NodeId → Exec Value}
  (heq : ∀ k < id, ∀ m : Machine, vars ≤ m.store.size → sub' k m = sub k m)
include heq

theorem Operand.readOr_eq {o : Operand} (h : o.InRange vars img.trends.size id) {m : Machine}
    (hm : vars ≤ m.store.size) :
    o.readOr trap img.trends.size id sub' m = o.read sub m := by
  have hrange : o.InRange m.store.size img.trends.size id :=
    h.mono hm (Nat.le_refl _) (Nat.le_refl _)
  show (if o.InRange m.store.size img.trends.size id then o.read sub' else trap) m = _
  rw [if_pos hrange]
  cases o with
  | node k => exact heq k h m hm
  | constant l => rfl
  | variableRef v => rfl
  | trendRef t => rfl

variable (hsub : ∀ k, (sub k).Abides img)
include hsub

theorem readOperandsOr_eq {os : List Operand}
    (h : ∀ o ∈ os, o.InRange vars img.trends.size id) {m : Machine}
    (hm : vars ≤ m.store.size) :
    readOperandsOr trap img.trends.size id sub' os m = readOperands sub os m := by
  induction os generalizing m with
  | nil => rfl
  | cons o rest ih =>
    rw [readOperandsOr, readOperands]
    refine Exec.bind_eq_bind (Operand.readOr_eq trap heq (h o List.mem_cons_self) hm) ?_
    intro v m₁ hread
    split
    · rfl
    · -- reading an operand adds no variables, so the others are still in range
      have hbecomes := Operand.read_abides hsub o m
      rw [hread] at hbecomes
      have hm₁ : vars ≤ m₁.store.size := by
        rw [Machine.Becomes.size hbecomes]
        exact hm
      refine Exec.bind_eq_bind (ih (fun o' ho' => h o' (List.mem_cons_of_mem o ho')) hm₁) ?_
      intro r m₂ _
      cases r <;> rfl

theorem Node.evaluateOr_eq {program : String} {n : Node}
    (h : n.InRange vars img.trends.size id) {m : Machine} (hm : vars ≤ m.store.size) :
    n.evaluateOr trap img program id sub' m = n.evaluate img program sub m := by
  obtain ⟨operation, operands⟩ := n
  -- the arity is tested on the values, of which there is one for each operand
  have hoperation : (do
      match ← readOperandsOr trap img.trends.size id sub' operands with
      | .error v => return v
      | .ok args =>
        if operation.arity.accepts args.length then operation.apply img program args
        else trap : Exec Value) m
      = (do
      match ← readOperands sub operands with
      | .error v => return v
      | .ok args => operation.apply img program args : Exec Value) m := by
    refine Exec.bind_eq_bind (readOperandsOr_eq trap heq hsub h.operands hm) ?_
    intro r m₁ hread
    cases r with
    | error v => rfl
    | ok args =>
      have harity : operation.arity.accepts args.length = true := by
        rw [length_of_readOperands sub hread]
        exact h.arity
      show (if operation.arity.accepts args.length then _ else trap : Exec Value) m₁ = _
      rw [if_pos harity]
  cases operation with
  | literal =>
    have hone : operands.length = 1 := by simpa [Operation.arity, Arity.accepts] using h.arity
    obtain ⟨o, rfl⟩ := List.length_eq_one_iff.1 hone
    exact Operand.readOr_eq trap heq (h.operands o List.mem_cons_self) hm
  | negate => exact hoperation
  | binary op => exact hoperation
  | call f => exact hoperation

end Untrapped

/-- In tables without loose ends no trap is ever sprung: evaluation does not come to a missing
    node, to a wrong number of operands, or to a variable or trend that does not exist. -/
theorem Image.evaluateOr_eq {img : Image} {vars : Nat}
    (h : NodesInRange vars img.trends.size img.nodes) (trap : Exec Value) (program : String)
    {id : NodeId} (hid : id < img.nodes.size) {m : Machine} (hm : vars ≤ m.store.size) :
    img.evaluateOr trap program id m = img.evaluate program id m := by
  induction id using Nat.strongRecOn generalizing m with
  | ind id ih =>
    have hn := Array.getElem?_eq_getElem hid
    have hrange := h id _ hn
    rw [img.evaluate_eq program hn (h.isForest id _ hn), Image.evaluateOr, hn]
    refine Node.evaluateOr_eq trap (fun k hk m hm => ?_) (fun k => Image.evaluate_abides k)
      hrange hm
    rw [if_pos hk]
    exact ih k hk (Nat.lt_trans hk hid) hm

/-! ## Evaluations of a run -/

/-- An invocation that starts on a machine comes to a place in a program on another: its own
    first line, the place after a step, or the first line of a subroutine that is called. -/
inductive Image.Visits (img : Image) (depth : Nat) (id : ProgramId) (m : Machine) :
    Nat → ProgramId → Cursor → Machine → Prop where
  | start : Visits img depth id m depth id (.run 0) m
  | step {d budget budget' : Nat} {current : ProgramId} {p : Program} {cursor cursor' : Cursor}
      {m₁ m₂ : Machine} :
      Visits img depth id m d current cursor m₁ → img.programs[current]? = some p →
      Erl.step img p (img.calls d) budget cursor m₁ = .ok (.next budget' cursor') m₂ →
      Visits img depth id m d current cursor' m₂
  | call {d index : Nat} {current callee : ProgramId} {p : Program} {line : ReadyLine}
      {m₁ m₂ : Machine} :
      Visits img depth id m (d + 1) current (.run index) m₁ → img.programs[current]? = some p →
      p.lines[index]? = some line → line.instruction = .run callee →
      noteLine img p line none m₁ = .ok () m₂ →
      Visits img depth id m d callee (.run 0) m₂

/-- Wherever an invocation comes to, the machine has been changed by programs only. -/
theorem Image.Visits.becomes {img : Image} {depth d : Nat} {id current : ProgramId}
    {cursor : Cursor} {m m' : Machine} (h : img.Visits depth id m d current cursor m') :
    m.Becomes img m' := by
  induction h with
  | start => exact .refl
  | @step d budget budget' current p cursor cursor' m₁ m₂ _ hp hstep ih =>
    have hend := step_abides (img.calls_abide d) hp budget cursor m₁
    rw [hstep] at hend
    exact ih.trans hend
  | @call d index current callee p line m₁ m₂ _ _ _ _ hnote ih =>
    have hend : m₁.EndsWith img (noteLine img p line none m₁) := noteLine_abides line none m₁
    rw [hnote] at hend
    exact ih.trans hend

end Erl
