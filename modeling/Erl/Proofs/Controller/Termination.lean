/-
  Erl.Proofs.Controller.Termination

  Every run of a calling point ends.

  Loops whose guards hold for ever and subroutines that call one another without end are
  stopped by their limits, whatever these are.  No invocation is ever cut off by the count of
  its steps: it ends where its steps lead, and every step leads on to an end.
-/

import Erl.Proofs.Controller.Reachable

namespace Erl

/-- Programs that run one after another are not cut off. -/
theorem Image.IsSound.runAll_ne_outOfSteps {img : Image} (h : img.IsSound)
    (programs : List ProgramId) {m : Machine} {name : String} {interrupt : Interrupt}
    (hstop : (img.runAll m programs).2.1 = some (name, interrupt)) :
    interrupt ≠ .outOfSteps := by
  induction programs generalizing m with
  | nil => cases hstop
  | cons id rest ih =>
    rw [Image.runAll] at hstop
    cases hmain : img.runMain id m with
    | ok status m' =>
      rw [hmain] at hstop
      exact ih hstop
    | error interrupt' m' =>
      rw [hmain] at hstop
      cases hstop
      rintro rfl
      exact h.invoke_finishes _ id m m' hmain

namespace Controller

/-- A run on well-targeted programs is not cut off. -/
theorem run_ne_outOfSteps (c : Controller) (h : c.image.IsSound) (point : CallingPoint) :
    (c.run point).1 ≠ .error .outOfSteps := by
  have hprograms : ∀ store programs,
      (c.runPrograms store programs).1 ≠ .error .outOfSteps := by
    intro store programs
    unfold runPrograms
    generalize hr : c.image.runAll { c.machine with store } programs = r
    obtain ⟨outcomes, stopped, machine⟩ := r
    rcases stopped with _ | ⟨program, interrupt⟩
    · dsimp only
      split <;> simp
    · have hne := h.runAll_ne_outOfSteps programs (by rw [hr])
      cases interrupt with
      | fatal message => simp
      | breakdown => simp
      | outOfSteps => exact absurd rfl hne
  unfold run
  split
  · simp
  · split
    · simp
    · split
      · simp
      · split
        · exact hprograms _ _
        · simp

/-- Every run ends.  From any state of the variables, a run of a calling point is not cut off
    by a count of steps; an invocation at any depth ends where its steps lead; from every line
    and with every budget steps lead to an end; and a value is computed from the values of nodes
    before it, along a relation without infinite descent. -/
theorem Reachable.run_ends {c : Controller} (h : Reachable c) :
    (∀ (m : Machine) (point : CallingPoint),
        ({ c with machine := m }.run point).1 ≠ .error .outOfSteps)
      ∧ (∀ (depth : Nat) (id : ProgramId) (p : Program), c.image.programs[id]? = some p →
          ∀ m, Ends c.image p (c.image.calls depth) c.image.settings.limits.loopEntries (.run 0) m
            (c.image.invoke depth id m))
      ∧ (∀ (depth : Nat) (id : ProgramId) (p : Program), c.image.programs[id]? = some p →
          ∀ budget cursor m, ∃ r, Ends c.image p (c.image.calls depth) budget cursor m r
            ∧ ∀ m', r ≠ .error .outOfSteps m')
      ∧ (∀ (program : String) (id : NodeId) (n : Node), c.image.nodes[id]? = some n →
          c.image.evaluate program id = n.evaluate c.image program (c.image.evaluate program))
      ∧ WellFounded fun sub id =>
          ∃ n, c.image.nodes[id]? = some n ∧ Operand.node sub ∈ n.operands := by
  have hsound := h.isSound
  refine ⟨fun m point => run_ne_outOfSteps { c with machine := m } hsound point, ?_, ?_, ?_, ?_⟩
  · intro depth id p hp m
    exact hsound.ends_invoke depth hp m
  · intro depth id p hp budget cursor m
    obtain ⟨r, hr⟩ := exists_ends (hsound.wellTargeted id p hp) budget cursor m
    exact ⟨r, hr, fun m' => hr.ne_outOfSteps (hsound.calls_finish depth)⟩
  · intro program id n hn
    exact c.image.evaluate_eq program hn (hsound.isForest id n hn)
  · refine Subrelation.wf ?_ Nat.lt_wfRel.wf
    rintro sub id ⟨n, hn, hmem⟩
    exact hsound.isForest id n hn _ hmem

/-- A controller with a loop whose guard always holds, in a subroutine that calls itself. -/
def endless : Controller :=
  let c := ((Controller.ofSettings .default .zero).addProgram "main" "RUN sub").2
  (c.addSubroutine "sub" "WHILE ON\n  RUN sub\nENDWHILE").2.compile

theorem Reachable.run_ends_endless :
    Reachable endless ∧ endless.compiled = true
      ∧ ∀ (m : Machine) (point : CallingPoint),
        ({ endless with machine := m }.run point).1 ≠ .error .outOfSteps := by
  have hreach : Reachable endless :=
    (((Reachable.ofSettings .default .zero).does (.addProgram "main" "RUN sub")).does
      (.addSubroutine "sub" "WHILE ON\n  RUN sub\nENDWHILE")).does .compile
  exact ⟨hreach, by decide +kernel, hreach.run_ends.1⟩

end Controller

end Erl
