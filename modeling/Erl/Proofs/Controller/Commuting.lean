/-
  Erl.Proofs.Controller.Commuting

  The order of independent programs at a calling point.

  Two programs that stand next to each other at a calling point and do not depend on one another
  can change places.  Each ends as before, the programs after them find the same variables, and so
  the run has the same end: the same values, the same commands to the host and the same samples.
-/

import Erl.Proofs.Controller.Reachable
import Erl.Proofs.Controller.Run
import Erl.Proofs.Machine.Independence

namespace Erl

/-! ## Outcomes in another order -/

/-- A list in which the element at a position and the next one have changed places. -/
def swapAt {α : Type} : Nat → List α → List α
  | 0, a :: b :: rest => b :: a :: rest
  | n + 1, a :: rest => a :: swapAt n rest
  | _, l => l

/-- The result of a run, with its outcomes in another order. -/
def reordered (order : List Outcome → List Outcome) :
    Except RunError (List Outcome) → Except RunError (List Outcome)
  | .ok outcomes => .ok (order outcomes)
  | .error (.fatalHalt program message outcomes) =>
    .error (.fatalHalt program message (order outcomes))
  | .error e => .error e

/-! ## Programs one after another -/

namespace Image

/-- Programs run alike on machines that differ in the log only. -/
theorem runAll_of_agreesOn (img : Image) {m m' : Machine} (h : m.AgreesOn (fun _ => True) m')
    (programs : List ProgramId) :
    (img.runAll m' programs).1 = (img.runAll m programs).1
      ∧ (img.runAll m' programs).2.1 = (img.runAll m programs).2.1
      ∧ (img.runAll m programs).2.2.AgreesOn (fun _ => True) (img.runAll m' programs).2.2 := by
  induction programs generalizing m m' with
  | nil => exact ⟨rfl, rfl, h⟩
  | cons id rest ih =>
    have hends : Exec.EndsTogether (Machine.AgreesOn fun _ => True) (img.runMain id m)
        (img.runMain id m') :=
      img.invoke_parallel (fun _ _ => trivial) img.settings.limits.depth m m' h
    rw [runAll, runAll]
    generalize img.runMain id m = r at hends
    generalize img.runMain id m' = r' at hends
    cases hends with
    | ok status hagrees =>
      obtain ⟨houtcomes, hstopped, hmachine⟩ := ih hagrees
      exact ⟨by dsimp only; rw [houtcomes], hstopped, hmachine⟩
    | error interrupt hagrees => exact ⟨rfl, rfl, hagrees⟩

/-- Independent programs that change places leave the other outcomes, the interrupt and the machine
    as they are, but for the log. -/
theorem IsSound.runAll_swap {img : Image} (hsound : img.IsSound)
    (hroutines : img.routines.AreSteady) {p q : ProgramId} (h : img.Independent p q) (m : Machine)
    (before after : List ProgramId) :
    (img.runAll m (before ++ q :: p :: after)).1
        = swapAt before.length (img.runAll m (before ++ p :: q :: after)).1
      ∧ (img.runAll m (before ++ q :: p :: after)).2.1
        = (img.runAll m (before ++ p :: q :: after)).2.1
      ∧ (img.runAll m (before ++ p :: q :: after)).2.2.AgreesOn (fun _ => True)
          (img.runAll m (before ++ q :: p :: after)).2.2 := by
  induction before generalizing m with
  | nil =>
    -- both come to their ends in either order, and the programs after them run alike
    obtain ⟨status, status', m₁, m₂, m₁', m₂', hp, hq, hq', hp', hagrees⟩ :=
      hsound.invoke_commute hroutines h img.settings.limits.depth m
    obtain ⟨houtcomes, hstopped, hmachine⟩ := runAll_of_agreesOn img hagrees after
    simp only [List.nil_append, List.length_nil, runAll, runMain, hp, hq, hq', hp']
    exact ⟨by rw [houtcomes]; rfl, hstopped, hmachine⟩
  | cons id rest ih =>
    rw [List.cons_append, List.cons_append, runAll, runAll]
    cases img.runMain id m with
    | ok status m₁ =>
      obtain ⟨houtcomes, hstopped, hmachine⟩ := ih m₁
      exact ⟨by dsimp only [List.length_cons, swapAt]; rw [houtcomes], hstopped, hmachine⟩
    | error interrupt m₁ =>
      -- the run is over before it comes to the two
      refine ⟨?_, rfl, .refl _ _⟩
      cases rest <;> rfl

end Image

/-! ## Calling points -/

namespace Controller

variable {c : Controller}

/-- Programs that leave the same machine but for the log end a run alike, in the order of their
    outcomes. -/
theorem runPrograms_reordered {store : Store} {programs programs' : List ProgramId}
    {order : List Outcome → List Outcome}
    (houtcomes : (c.image.runAll { c.machine with store } programs').1
      = order (c.image.runAll { c.machine with store } programs).1)
    (hstopped : (c.image.runAll { c.machine with store } programs').2.1
      = (c.image.runAll { c.machine with store } programs).2.1)
    (hmachine : (c.image.runAll { c.machine with store } programs).2.2.AgreesOn (fun _ => True)
      (c.image.runAll { c.machine with store } programs').2.2) (schedule : Schedule) :
    ∃ log, { c with schedule }.runPrograms store programs'
      = (reordered order (c.runPrograms store programs).1,
          { (c.runPrograms store programs).2 with
            schedule
            machine := { (c.runPrograms store programs).2.machine with log } }) := by
  unfold runPrograms
  dsimp only
  generalize c.image.runAll { c.machine with store } programs' = r' at *
  generalize c.image.runAll { c.machine with store } programs = r at *
  obtain ⟨outcomes, stopped, m⟩ := r
  obtain ⟨outcomes', stopped', m'⟩ := r'
  dsimp only at houtcomes hstopped hmachine
  -- what is written back, sampled or reported does not depend on the log
  rw [houtcomes, hstopped, hmachine.eq_of_all]
  rcases stopped with _ | ⟨program, interrupt⟩
  · dsimp only
    cases c.exchange.commands? m.store with
    | none => exact ⟨_, rfl⟩
    | some commands => exact ⟨_, rfl⟩
  · cases interrupt <;> exact ⟨_, rfl⟩

/-- Independent programs of a calling point run in either order to the same ends.

    The routines are steady, as the standard ones are.  From any state, two programs neither of
    which assigns what the other reads or assigns, and which neither halt the run nor draw random
    numbers, have each the same end in both orders, and leave the same variables.  A calling point
    at which they have changed places gives the same outcomes, in the new order, and leaves the
    controller as before, with the cells of the host and the samples of the trends, but for the
    log. -/
theorem Reachable.independent_programs_commute (h : Reachable c)
    (hroutines : c.image.routines.AreSteady) {p q : ProgramId} (hpq : c.image.Independent p q) :
    (∀ m : Machine, ∃ status status' m₁ m₂ m₃ log,
        c.image.runMain p m = .ok status m₁ ∧ c.image.runMain q m₁ = .ok status' m₂
          ∧ c.image.runMain q m = .ok status' m₃
          ∧ c.image.runMain p m₃ = .ok status { m₂ with log })
      ∧ ∀ (point : CallingPoint) (before after : List ProgramId) (schedule : Schedule),
          c.schedule.programs point = before ++ p :: q :: after →
          schedule.programs point = before ++ q :: p :: after →
          ∃ log, { c with schedule }.run point
            = (reordered (swapAt before.length) (c.run point).1,
                { (c.run point).2 with
                  schedule
                  machine := { (c.run point).2.machine with log } }) := by
  have hsound := h.isSound
  refine ⟨fun m => ?_, fun point before after schedule hprograms hswapped => ?_⟩
  · obtain ⟨status, status', m₁, m₂, m₃, m₄, hp, hq, hq', hp', hagrees⟩ :=
      hsound.invoke_commute hroutines hpq c.image.settings.limits.depth m
    exact ⟨status, status', m₁, m₂, m₃, m₄.log, hp, hq, hq', hagrees.eq_of_all ▸ hp'⟩
  · have hbound : c.schedule.programs point ≠ [] := by simp [hprograms]
    have hbound' : { c with schedule }.schedule.programs point ≠ [] := by simp [hswapped]
    rw [run_of_bound hbound, run_of_bound hbound', hprograms]
    dsimp only
    rw [hswapped]
    -- a run that may not start does not come to its programs
    split
    · exact ⟨_, rfl⟩
    · split
      · exact ⟨_, rfl⟩
      · cases c.exchange.refresh? c.cells c.machine.store with
        | none => exact ⟨_, rfl⟩
        | some store =>
          obtain ⟨houtcomes, hstopped, hmachine⟩ :=
            hsound.runAll_swap hroutines hpq { c.machine with store } before after
          exact runPrograms_reordered houtcomes hstopped hmachine schedule

/-- A controller with programs of which two do not depend on one another: one runs a subroutine,
    the other is halted in a loop.  Those before and after them share variables with both. -/
def heatAndCool : Controller :=
  let c := Controller.ofSettings { Settings.default with limits := ⟨2, 3⟩ } .zero
  let c := (c.addGlobal "temperature" .user).2
  let c := (c.addGlobal "heat" .user).2
  let c := (c.addGlobal "cool" .user).2
  let c := (c.addProgram "Start" "SET temperature = 20").2
  let c := (c.addProgram "Heat" "SET heat = temperature + 1\nRUN Boost").2
  let c := (c.addProgram "Cool"
    "SET cool = temperature\nWHILE cool > 0\nSET cool = cool - 1\nENDWHILE").2
  let c := (c.addProgram "Draw" "SET noise = @RandomUniform cool heat").2
  let c := (c.addSubroutine "Boost" "SET heat = heat * 2").2
  let c := (c.bindProgram .beginNewEnvironment "Start").2
  let c := (c.bindProgram .beginNewEnvironment "Heat").2
  let c := (c.bindProgram .beginNewEnvironment "Cool").2
  let c := (c.bindProgram .beginNewEnvironment "Draw").2
  c.compile.installRoutines .standard

/-- The schedule with the two programs in the other order. -/
def coolFirst : Schedule :=
  ⟨#[(.beginNewEnvironment, 0), (.beginNewEnvironment, 2), (.beginNewEnvironment, 1),
    (.beginNewEnvironment, 3)]⟩

theorem Reachable.independent_programs_commute_heatAndCool :
    Reachable heatAndCool ∧ heatAndCool.image.routines.AreSteady
      ∧ heatAndCool.image.Independent 1 2
      ∧ (heatAndCool.run .beginNewEnvironment).1.toOption
        = some [⟨"Start", .normal⟩, ⟨"Heat", .normal⟩, ⟨"Cool", .runawayLoop⟩, ⟨"Draw", .normal⟩]
      ∧ ({ heatAndCool with schedule := coolFirst }.run .beginNewEnvironment).1.toOption
        = some [⟨"Start", .normal⟩, ⟨"Cool", .runawayLoop⟩, ⟨"Heat", .normal⟩, ⟨"Draw", .normal⟩]
      ∧ ({ heatAndCool with schedule := coolFirst }.run .beginNewEnvironment).2.machine.store
        = (heatAndCool.run .beginNewEnvironment).2.machine.store := by
  have hreach : Reachable heatAndCool := by
    refine .does (.does ?_ .compile) (.installRoutines _)
    iterate 4 refine .does ?_ (.bindProgram _ _)
    refine .does ?_ (.addSubroutine _ _)
    iterate 4 refine .does ?_ (.addProgram _ _)
    iterate 3 refine .does ?_ (.addGlobal _ _)
    exact .ofSettings _ _
  have hroutines : heatAndCool.image.routines.AreSteady := Routines.standard_areSteady
  have hvalues : heatAndCool.image.isClosed [1, 4] [1, 6] = true
      ∧ heatAndCool.image.isClosed [2] [2, 3, 4] = true
      ∧ heatAndCool.image.leavesAlone [1, 4] [2] [2, 3, 4] = true
      ∧ heatAndCool.image.leavesAlone [2] [1, 4] [1, 6] = true
      ∧ (heatAndCool.image.operationsAt [1, 6]
          ++ heatAndCool.image.operationsAt [2, 3, 4]).all Operation.isSteady = true
      ∧ heatAndCool.schedule.programs .beginNewEnvironment = [0] ++ 1 :: 2 :: [3]
      ∧ (heatAndCool.run .beginNewEnvironment).1.toOption = some [⟨"Start", .normal⟩,
        ⟨"Heat", .normal⟩, ⟨"Cool", .runawayLoop⟩, ⟨"Draw", .normal⟩] := by
    decide +kernel
  obtain ⟨hclosed, hclosed', hleft, hright, hsteady, hprograms, houtcomes⟩ := hvalues
  have hindependent : heatAndCool.image.Independent 1 2 :=
    Image.independent_of_lists hclosed hclosed' (by decide) (by decide) hleft hright hsteady
  obtain ⟨log, hrun⟩ := (Reachable.independent_programs_commute hreach hroutines hindependent).2
    .beginNewEnvironment [0] [3] coolFirst hprograms (by decide)
  refine ⟨hreach, hroutines, hindependent, houtcomes, ?_⟩
  -- what the runs give is not evaluated again
  generalize { heatAndCool with schedule := coolFirst }.run .beginNewEnvironment = r' at hrun ⊢
  generalize heatAndCool.run .beginNewEnvironment = r at hrun houtcomes ⊢
  obtain ⟨result, c⟩ := r
  rw [hrun]
  cases result with
  | error e => cases houtcomes
  | ok outcomes =>
    cases houtcomes
    exact ⟨rfl, rfl⟩

end Controller

end Erl
