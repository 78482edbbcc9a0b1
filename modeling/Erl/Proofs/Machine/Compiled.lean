/-
  Erl.Proofs.Machine.Compiled

  Compiled programs.

  A compiled line stands where its source line stands and carries out the same instruction,
  with its name, expression or callee resolved and with the same targets.
-/

import Mathlib.Data.List.Forall2
import Erl.Proofs.Code.Target
import Erl.Proofs.Machine.Meaning

namespace Erl

/-- The subroutine with a name; a program of another kind that has the name hides it. -/
def subroutineNamed? (programs : Array Program) (name : String) : Option ProgramId :=
  (programNamed? programs name).filter fun id =>
    (programs[id]?).map Program.kind = some .subroutine

/-! ## Instructions -/

/-- A compiled instruction carries out an instruction of a source. -/
inductive Realizes (names : Naming) (nodes : Array Node) (programs : Array Program) :
    Instruction String Expr String → Instruction VariableId NodeId ProgramId → Prop where
  | set {target : String} {value : Expr} {id : VariableId} {n : NodeId} :
      names.resolve? target = some (.variableAt id) → DenotesWhole names nodes value n →
      Realizes names nodes programs (.set target value) (.set id n)
  | run {name : String} {id : ProgramId} :
      subroutineNamed? programs name = some id →
      Realizes names nodes programs (.run name) (.run id)
  | return_ : Realizes names nodes programs .return_ .return_
  | if_ {c : Expr} {n : NodeId} {next : Nat} :
      DenotesWhole names nodes c n → Realizes names nodes programs (.if_ c next) (.if_ n next)
  | elseIf {c : Expr} {n : NodeId} {next stop : Nat} :
      DenotesWhole names nodes c n →
      Realizes names nodes programs (.elseIf c next stop) (.elseIf n next stop)
  | else_ {stop : Nat} : Realizes names nodes programs (.else_ stop) (.else_ stop)
  | endIf : Realizes names nodes programs .endIf .endIf
  | while_ {c : Expr} {n : NodeId} {stop : Nat} :
      DenotesWhole names nodes c n →
      Realizes names nodes programs (.while_ c stop) (.while_ n stop)
  | endWhile {start : Nat} : Realizes names nodes programs (.endWhile start) (.endWhile start)

namespace Realizes

variable {names names' : Naming} {nodes nodes' : Array Node} {programs : Array Program}
  {i : Instruction String Expr String} {r : Instruction VariableId NodeId ProgramId}

/-- A compiled instruction stays one when names and nodes are added. -/
theorem mono (h : Realizes names nodes programs i r) (hnames : names.Le names')
    (hnodes : NodesLe nodes nodes') : Realizes names' nodes' programs i r := by
  cases h with
  | set ht hv => exact .set (hnames.resolve? ht) (hv.mono hnames hnodes)
  | run hid => exact .run hid
  | return_ => exact .return_
  | if_ hc => exact .if_ (hc.mono hnames hnodes)
  | elseIf hc => exact .elseIf (hc.mono hnames hnodes)
  | else_ => exact .else_
  | endIf => exact .endIf
  | while_ hc => exact .while_ (hc.mono hnames hnodes)
  | endWhile => exact .endWhile

/-- Compiling keeps targets. -/
theorem outline_eq (h : Realizes names nodes programs i r) : i.outline = r.outline := by
  cases h <;> rfl

/-- The expression of an instruction is compiled to a node. -/
theorem denotesWhole (h : Realizes names nodes programs i r) {e : Expr}
    (he : i.expression? = some e) :
    ∃ n, r.expression? = some n ∧ DenotesWhole names nodes e n := by
  cases h with
  | set ht hv =>
    cases he
    exact ⟨_, rfl, hv⟩
  | if_ hc =>
    cases he
    exact ⟨_, rfl, hc⟩
  | elseIf hc =>
    cases he
    exact ⟨_, rfl, hc⟩
  | while_ hc =>
    cases he
    exact ⟨_, rfl, hc⟩
  | run hid => cases he
  | return_ => cases he
  | else_ => cases he
  | endIf => cases he
  | endWhile => cases he

end Realizes

/-! ## Lines and programs -/

/-- A compiled line carries out a line of a source. -/
structure LineRealizes (names : Naming) (nodes : Array Node) (programs : Array Program)
    (source : SourceLine) (line : ReadyLine) : Prop where
  location : line.location = source.location
  text : line.text = source.text
  instruction : Realizes names nodes programs source.instruction line.instruction

theorem LineRealizes.mono {names names' : Naming} {nodes nodes' : Array Node}
    {programs : Array Program} (hnames : names.Le names') (hnodes : NodesLe nodes nodes')
    {source : SourceLine} {line : ReadyLine}
    (h : LineRealizes names nodes programs source line) :
    LineRealizes names' nodes' programs source line :=
  ⟨h.location, h.text, h.instruction.mono hnames hnodes⟩

/-- Lists that agree one for one have something at the same positions. -/
theorem getElem?_of_forall₂ {α β : Type} {R : α → β → Prop} {xs : List α} {ys : List β}
    (h : List.Forall₂ R xs ys) {i : Nat} {x : α} (hx : xs[i]? = some x) :
    ∃ y, ys[i]? = some y ∧ R x y := by
  induction h generalizing i with
  | nil => simp at hx
  | cons hxy _ ih =>
    cases i with
    | zero =>
      cases hx
      exact ⟨_, rfl, hxy⟩
    | succ i => exact ih hx

/-- A program whose lines carry out those of its source. -/
def Program.IsCompiled (names : Naming) (nodes : Array Node) (programs : Array Program)
    (p : Program) : Prop :=
  ∃ source, parseCode p.source = .ok source
    ∧ List.Forall₂ (LineRealizes names nodes programs) source.toList p.lines.toList

namespace Program.IsCompiled

variable {names names' : Naming} {nodes nodes' : Array Node} {programs : Array Program}
  {p : Program}

theorem mono (hnames : names.Le names') (hnodes : NodesLe nodes nodes')
    (h : p.IsCompiled names nodes programs) : p.IsCompiled names' nodes' programs := by
  obtain ⟨source, hparse, hlines⟩ := h
  exact ⟨source, hparse, hlines.imp fun _ _ hline => hline.mono hnames hnodes⟩

/-- The targets of a compiled program are as they have to be. -/
theorem wellTargeted (h : p.IsCompiled names nodes programs) : WellTargeted p.lines.toList := by
  obtain ⟨source, hparse, hlines⟩ := h
  obtain ⟨b, -, rfl⟩ := parseCode_eq_ok_iff.1 hparse
  -- the code of the tree and the compiled lines differ in operands only
  refine WellTargeted.congr ?_ b.wellTargeted
  intro i
  have houtline : (b.code 0).map (fun l => l.instruction.outline)
      = p.lines.toList.map fun l => l.instruction.outline := by
    refine List.forall₂_eq_eq_eq ▸ List.forall₂_map_left_iff.2 (List.forall₂_map_right_iff.2 ?_)
    exact hlines.imp fun _ _ hline => hline.instruction.outline_eq
  rw [outlineAt?, outlineAt?, ← List.getElem?_map, ← List.getElem?_map, houtline]

end Program.IsCompiled

end Erl
