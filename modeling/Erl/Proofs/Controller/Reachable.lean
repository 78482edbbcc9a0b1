/-
  Erl.Proofs.Controller.Reachable

  The code of every controller that a host can make.

  The nodes and the lines of programs change only when programs are added, which have no lines
  then, and when all programs are compiled.  So at any time every line has targets as they have
  to be, and every node refers to nodes before it.
-/

import Erl.Proofs.Controller.Compile
import Erl.Proofs.Controller.Operation
import Erl.Proofs.Controller.Run

namespace Erl.Controller

/-! ## Nodes and programs -/

/-- Two controllers have the same nodes and programs, and agree on whether they may run. -/
structure SameCode (c c' : Controller) : Prop where
  nodes : c'.image.nodes = c.image.nodes
  programs : c'.image.programs = c.image.programs
  compiled : c'.compiled = c.compiled

theorem SameCode.trans {c c' c'' : Controller} (h : SameCode c c') (h' : SameCode c' c'') :
    SameCode c c'' :=
  ⟨h'.nodes.trans h.nodes, h'.programs.trans h.programs, h'.compiled.trans h.compiled⟩

/-- Variables are not part of the code. -/
theorem withStore_sameCode (c : Controller) (store : Store) : SameCode c (c.withStore store) :=
  ⟨rfl, rfl, rfl⟩

theorem RunsTo.sameCode {c c' : Controller} {point : CallingPoint}
    {r : Except RunError (List Outcome)} (h : RunsTo c point r c') : SameCode c c' := by
  cases h <;> exact ⟨rfl, rfl, rfl⟩

/-! ## Every reachable controller -/

/-- An operation keeps the code, adds a program without lines or compiles all programs. -/
theorem Does.code {c c' : Controller} (h : Does c c') :
    SameCode c c'
      ∨ (∃ p : Program, p.lines = #[] ∧ c'.image.nodes = c.image.nodes
          ∧ c'.image.programs = c.image.programs.push p ∧ c'.compiled = false)
      ∨ c' = c.compile := by
  obtain ⟨_, heffect⟩ := h.effect
  cases heffect with
  | addProgram _ hlines => exact .inr (.inl ⟨_, hlines, rfl, rfl, rfl⟩)
  | compile => exact .inr (.inr rfl)
  | run point => exact .inl (c.run_runsTo point).sameCode
  | host routines curves cells constructions => exact .inl ⟨rfl, rfl, rfl⟩
  | publish _ => exact .inl ⟨rfl, rfl, rfl⟩
  | refuse problem => exact .inl ⟨rfl, rfl, rfl⟩
  | addVariable _ _ _ => exact .inl ⟨rfl, rfl, rfl⟩
  | assign v _ => exact .inl (c.withStore_sameCode _)
  | updateClock clock => exact .inl (c.withStore_sameCode _)
  | addTrend _ => exact .inl ⟨rfl, rfl, rfl⟩
  | bind point _ => exact .inl ⟨rfl, rfl, rfl⟩

/-- No lines have targets as they have to be. -/
theorem wellTargeted_empty : WellTargeted (#[] : Array ReadyLine).toList := by
  intro i o h
  simp [outlineAt?] at h

/-- After compiling all targets are as they have to be, whatever problems were found. -/
theorem compile_isSound (c : Controller) : c.compile.image.IsSound := by
  obtain ⟨hforest, -, hcompiled⟩ := c.compile_spec
  refine ⟨hforest, fun id p hp => ?_⟩
  by_cases hlines : p.lines = #[]
  · rw [hlines]
    exact wellTargeted_empty
  · exact (hcompiled id p hp (.inr hlines)).wellTargeted

/-- In every reachable controller targets are as they have to be and nodes refer to nodes before
    them. -/
theorem Reachable.isSound {c : Controller} (h : Reachable c) : c.image.IsSound := by
  -- programs that are added have no lines yet, and all other lines come from compiling
  induction h with
  | ofSettings settings stream =>
    exact ⟨isForest_empty, by simp [Controller.ofSettings, Image.programs, Catalog.empty]⟩
  | @does c c' _ hdoes ih =>
    obtain ⟨hnodes, hprograms, -⟩ | ⟨added, hlines, hnodes, hprograms, -⟩ | rfl := hdoes.code
    · exact ⟨hnodes ▸ ih.isForest, fun id p hp => ih.wellTargeted id p (hprograms ▸ hp)⟩
    · refine ⟨hnodes ▸ ih.isForest, fun id p hp => ?_⟩
      rw [hprograms, Array.getElem?_push] at hp
      split at hp
      · cases hp
        rw [hlines]
        exact wellTargeted_empty
      · exact ih.wellTargeted id p hp
    · exact c.compile_isSound

end Erl.Controller
