/-
  Erl.Proofs.Machine.Forest

  The table of nodes as a forest.

  In the table of a compiled model a node refers only to nodes that stand before it.  There
  the value of a node is the value of its operation on the values of its operands, with no
  exception for references that go forward: evaluation is a recursion on the forest.
-/

import Erl.Machine.Evaluate

namespace Erl

/-- An operand refers to no node from a position on. -/
def Operand.Below (id : NodeId) : Operand → Prop
  | .node sub => sub < id
  | _ => True

/-- A node refers to no node from a position on. -/
def Node.Below (id : NodeId) (n : Node) : Prop :=
  ∀ o ∈ n.operands, o.Below id

/-- Every node refers only to nodes before it. -/
def IsForest (nodes : Array Node) : Prop :=
  ∀ (id : NodeId) (n : Node), nodes[id]? = some n → n.Below id

/-- An operand that was below a position is below every later one. -/
theorem Operand.Below.mono {o : Operand} {id id' : NodeId} (h : o.Below id) (hle : id ≤ id') :
    o.Below id' := by
  cases o with
  | node sub => exact Nat.lt_of_lt_of_le h hle
  | constant l => trivial
  | variableRef v => trivial
  | trendRef t => trivial

/-- The empty table is a forest. -/
theorem isForest_empty : IsForest #[] := by
  intro id n h
  simp at h

/-- A forest stays one when a node is added that refers to the nodes in it. -/
theorem IsForest.push {nodes : Array Node} {n : Node} (h : IsForest nodes)
    (hn : n.Below nodes.size) : IsForest (nodes.push n) := by
  intro id n' hid
  rw [Array.getElem?_push] at hid
  split at hid
  · next heq =>
    obtain rfl : n = n' := Option.some.inj hid
    exact heq ▸ hn
  · exact h id n' hid

/-! ## Evaluation -/

section Congruence

variable {sub sub' : NodeId → Exec Value} {id : NodeId} (heq : ∀ k < id, sub k = sub' k)
include heq

/-- The value of an operand rests on the nodes that it refers to. -/
theorem Operand.read_congr {o : Operand} (h : o.Below id) : o.read sub = o.read sub' := by
  cases o with
  | node k => exact heq k h
  | constant l => rfl
  | variableRef v => rfl
  | trendRef t => rfl

/-- The values of operands rest on the nodes that they refer to. -/
theorem readOperands_congr {os : List Operand} (h : ∀ o ∈ os, o.Below id) :
    readOperands sub os = readOperands sub' os := by
  induction os with
  | nil => rfl
  | cons o rest ih =>
    have hrest := ih fun o' ho' => h o' (List.mem_cons_of_mem o ho')
    have hfirst := Operand.read_congr heq (h o List.mem_cons_self)
    simp only [readOperands, hfirst, hrest]

/-- The value of a node rests on the nodes that it refers to. -/
theorem Node.evaluate_congr {n : Node} (h : n.Below id) (img : Image) (program : String) :
    n.evaluate img program sub = n.evaluate img program sub' := by
  obtain ⟨operation, operands⟩ := n
  have hall := readOperands_congr heq h
  cases operation with
  | literal =>
    cases operands with
    | nil => rfl
    | cons o rest => exact Operand.read_congr heq (h o List.mem_cons_self)
  | negate => simp only [Node.evaluate, hall]
  | binary op => simp only [Node.evaluate, hall]
  | call f => simp only [Node.evaluate, hall]

end Congruence

/-- The value of a node that refers to nodes before it is that of its operation on the values
    of those nodes. -/
theorem Image.evaluate_eq (img : Image) (program : String) {id : NodeId} {n : Node}
    (hn : img.nodes[id]? = some n) (hb : n.Below id) :
    img.evaluate program id = n.evaluate img program (img.evaluate program) := by
  rw [Image.evaluate, hn]
  apply Node.evaluate_congr _ hb
  intro k hk
  rw [if_pos hk]

end Erl
