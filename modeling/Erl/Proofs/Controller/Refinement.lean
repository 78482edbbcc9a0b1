/-
  Erl.Proofs.Controller.Refinement

  Compiled controllers run the trees of their sources.

  The sources of a controller that compiles have trees, and its programs end as the trees do:
  with the same status or interrupt, the same variables, the same messages and the same trace.
-/

import Erl.Proofs.Code.Grammar
import Erl.Proofs.Controller.Compile
import Erl.Proofs.Machine.Simulation

namespace Erl.Controller

/-- Flat execution refines structured execution.  After compiling without a problem each source
    has one tree.  From then on, whatever the settings, the variables and the depth are, an
    invocation of a program has the result of running its tree, in which names are resolved
    against the variables and trends as they are after compiling. -/
theorem invoke_eq_interpret_trees (c : Controller) (hc : c.compile.compiled = true) :
    (∃ trees : ProgramId → Block, ∀ (id : ProgramId) (p : Program),
        c.compile.image.programs[id]? = some p →
          ∀ tree : Block, tree.IsTreeOf p.source ↔ tree = trees id)
      ∧ ∀ trees : ProgramId → Block,
        (∀ (id : ProgramId) (p : Program),
          c.compile.image.programs[id]? = some p → (trees id).IsTreeOf p.source) →
        ∀ img : Image, img.nodes = c.compile.image.nodes →
          img.programs = c.compile.image.programs →
          ∀ (depth : Nat) (id : ProgramId) (m : Machine),
            img.invoke depth id m
              = img.interpret
                  (fun id => ⟨c.compile.machine.store, c.compile.image.trends, id⟩) trees
                  depth id m := by
  have hcompiled := c.compile_spec.2.2
  constructor
  · -- a source that compiles was read, and what was read has a tree
    have htree : ∀ id : ProgramId, ∃ only : Block, ∀ p : Program,
        c.compile.image.programs[id]? = some p →
          ∀ tree : Block, tree.IsTreeOf p.source ↔ tree = only := by
      intro id
      cases hp : c.compile.image.programs[id]? with
      | none => exact ⟨.done, by simp⟩
      | some p =>
        obtain ⟨source, hparse, -⟩ := hcompiled id p hp (.inl hc)
        obtain ⟨tree, htree, -⟩ := parseCode_eq_ok_iff.1 hparse
        refine ⟨tree, fun q hq other => ?_⟩
        cases hq
        exact htree.iff_eq
    choose trees htrees using htree
    exact ⟨trees, htrees⟩
  · -- only nodes and programs matter; settings, trends and routines may have changed
    intro trees htrees img hnodes hprograms depth id m
    rw [Image.invoke_eq_interpret]
    intro id p hp
    rw [hprograms] at hp
    rw [hnodes, hprograms]
    exact ⟨hcompiled id p hp (.inl hc), htrees id p hp⟩

/-- A controller with a loop inside a branch that runs a subroutine. -/
def nestedCall : Controller :=
  let c := ((Controller.ofSettings .default .zero).addProgram "main"
    "IF day\n  WHILE a\n    RUN sub\n  ENDWHILE\nELSE\n  RETURN\nENDIF").2
  (c.addSubroutine "sub" "SET a = b").2

theorem invoke_eq_interpret_trees_nestedCall :
    nestedCall.compile.compiled = true
      ∧ ∃ trees : ProgramId → Block,
        (∀ (id : ProgramId) (p : Program),
          nestedCall.compile.image.programs[id]? = some p → (trees id).IsTreeOf p.source)
        ∧ ∀ (depth : Nat) (id : ProgramId) (m : Machine),
            nestedCall.compile.image.invoke depth id m
              = nestedCall.compile.image.interpret
                  (fun id => ⟨nestedCall.compile.machine.store,
                    nestedCall.compile.image.trends, id⟩) trees depth id m := by
  have hc : nestedCall.compile.compiled = true := by decide +kernel
  obtain ⟨⟨trees, honly⟩, hrun⟩ := nestedCall.invoke_eq_interpret_trees hc
  have htrees : ∀ (id : ProgramId) (p : Program),
      nestedCall.compile.image.programs[id]? = some p → (trees id).IsTreeOf p.source :=
    fun id p hp => (honly id p hp _).2 rfl
  exact ⟨hc, trees, htrees, hrun trees htrees _ rfl rfl⟩

end Erl.Controller
