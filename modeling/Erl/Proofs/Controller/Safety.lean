/-
  Erl.Proofs.Controller.Safety

  What can bring a run down.

  With the standard routines a run has a result for the host, whatever the programs compute,
  whatever curves give and whatever the host puts into its cells: no table is read out of its
  bounds, no program is cut off, and what cannot be computed is an error value.  There is one
  exception.  A normal draw that is asked for with a bound that is not a number breaks down, and
  with it the run.
-/

import Erl.Proofs.Controller.Termination
import Erl.Proofs.Controller.Ties
import Erl.Proofs.Controller.WellFormed
import Erl.Proofs.Curve
import Erl.Proofs.Machine.Breakdown

namespace Erl

/-! ## Runs -/

namespace Controller

variable {c : Controller}

/-- The run of a calling point comes to a normal draw with a bound that is not a number. -/
def ComesToCut (c : Controller) (point : CallingPoint) : Prop :=
  ∃ store before id after ended m₁ program e m₂ f xs,
    c.Starts point store ∧ c.schedule.programs point = before ++ id :: after
      ∧ c.image.Runs { c.machine with store } before ended m₁
      ∧ c.image.Comes program e m₂ c.image.settings.limits.depth id m₁
      ∧ c.image.Asks program f xs e m₂ ∧ CutsToNaN f xs

/-- A run breaks down exactly if one of its programs does. -/
theorem TiesHold.run_breakdown_iff (h : c.TiesHold) (point : CallingPoint) :
    (c.run point).1 = .error .breakdown ↔
      ∃ store before id after ended m₁, c.Starts point store
        ∧ c.schedule.programs point = before ++ id :: after
        ∧ c.image.Runs { c.machine with store } before ended m₁
        ∧ (c.image.runMain id).Breaks m₁ := by
  constructor
  · intro hrun
    have hends := c.run_runsTo point
    generalize c.run point = r at hrun hends
    obtain ⟨result, c'⟩ := r
    cases hrun
    -- all ties lead to something published, so what is left is an interrupt of a program
    cases hends with
    | unreadable hnone =>
      rw [h.refresh?] at hnone
      cases hnone
    | unwritable _ _ hnone =>
      rw [h.commands?] at hnone
      cases hnone
    | breakdown hstarts hstops =>
      obtain ⟨before, after, ended, m₁, hprograms, hruns, hstop, -⟩ := hstops
      exact ⟨_, before, _, after, ended, m₁, hstarts, hprograms, hruns, _, hstop⟩
  · rintro ⟨store, before, id, after, ended, m₁, hstarts, hprograms, hruns, m', hstop⟩
    have hstops : c.image.Stops { c.machine with store } (c.schedule.programs point)
        (ended ++ [⟨c.image.programName id, .fatal⟩]) id .breakdown m' :=
      ⟨before, after, ended, m₁, hprograms, hruns, hstop, rfl⟩
    rw [hstarts.run_eq, runPrograms, hstops.runAll]

/-- What can bring a run down.

    With the standard routines, and with whatever evaluates its curves, a run breaks down exactly if
    it comes to a normal draw with a bound that is not a number.  Nothing else can bring it down: no
    program is cut off, all ties lead to something published, no evaluation goes by way of a missing
    node, a wrong number of arguments, or a variable or trend out of range, and if a table evaluates
    the curves, these have the coefficients that their polynomials take. -/
theorem Reachable.breaks_down_iff_comesToCut (h : Reachable c)
    (hroutines : c.image.routines = .standard) (point : CallingPoint) :
    ((c.run point).1 = .error .breakdown ↔ c.ComesToCut point)
      ∧ (c.run point).1 ≠ .error .outOfSteps
      ∧ (c.exchange.refresh? c.cells c.machine.store).isSome = true
      ∧ (∀ store, (c.exchange.commands? store).isSome = true)
      ∧ (∀ (trap : Exec Value) (program : String) (e : NodeId) (m : Machine),
          e < c.image.nodes.size → c.machine.store.size ≤ m.store.size →
          c.image.evaluateOr trap program e m = c.image.evaluate program e m)
      ∧ ∀ (curves : List Curve) (table : Curves), Curves.ofList curves = .ok table →
          c.image.curves = table.evaluator → ∀ curve ∈ table.curves, ∀ inputs : List Float,
          inputs.length = curve.form.inputsNeeded →
          (Curve.polynomial? curve.form curve.coefficients (curve.cutInputs inputs)).isSome
            = true := by
  have hties := h.tiesHold
  have hnodes := h.wellFormed.nodes
  refine ⟨?_, run_ne_outOfSteps c h.isSound point, by rw [hties.refresh?]; rfl,
    fun store => by rw [hties.commands?]; rfl, ?_, ?_⟩
  · -- a run breaks down in a program, a program in an evaluation, and that in a routine
    rw [hties.run_breakdown_iff]
    constructor
    · rintro ⟨store, before, id, after, ended, m₁, hstarts, hprograms, hruns, hbreaks⟩
      obtain ⟨program, e, m₂, hcomes, hvalue⟩ := (h.isSound.invoke_breaks_iff _ id m₁).1 hbreaks
      obtain ⟨f, xs, hcuts, hasks⟩ := (Image.evaluate_breaks_iff hroutines hnodes e m₂).1 hvalue
      exact ⟨store, before, id, after, ended, m₁, program, e, m₂, f, xs, hstarts, hprograms, hruns,
        hcomes, hasks, hcuts⟩
    · rintro ⟨store, before, id, after, ended, m₁, program, e, m₂, f, xs, hstarts, hprograms,
        hruns, hcomes, hasks, hcuts⟩
      have hvalue := (Image.evaluate_breaks_iff hroutines hnodes e m₂).2 ⟨f, xs, hcuts, hasks⟩
      have hbreaks := (h.isSound.invoke_breaks_iff _ id m₁).2 ⟨program, e, m₂, hcomes, hvalue⟩
      exact ⟨store, before, id, after, ended, m₁, hstarts, hprograms, hruns, hbreaks⟩
  · intro trap program e m he hm
    exact Image.evaluateOr_eq hnodes trap program he hm
  · intro curves table hmade _ curve hcurve inputs hinputs
    exact Curve.polynomial?_isSome (Curves.areComplete_of_ofList hmade curve hcurve) hinputs

/-- A controller with a program that draws a number above the reading of a sensor, which is not a
    number as long as the host has not put one into the cell. -/
def sensorBound : Controller :=
  let c := ((Controller.ofSettings .default .zero).addCell (.real (0.0 / 0.0))).2
  let c := c.publishOutput ⟨"Temperature", "Room", "C", 0⟩
  let c := (c.attachSensor "low" "Temperature" "Room").2
  let c := (c.addProgram "Main" "SET x = @RandomNormal 0 0 low 5").2
  let c := (c.bindProgram .beginNewEnvironment "Main").2
  c.compile.installRoutines .standard

theorem Reachable.breaks_down_iff_comesToCut_sensorBound :
    Reachable sensorBound ∧ sensorBound.ComesToCut .beginNewEnvironment
      ∧ ¬ (sensorBound.assignCell 0 1.0).ComesToCut .beginNewEnvironment := by
  have hreach : Reachable sensorBound :=
    ((((((Reachable.ofSettings .default .zero).does (.addCell _)).does (.publishOutput _)).does
      (.attachSensor _ _ _)).does (.addProgram _ _)).does (.bindProgram _ _)).does .compile |>.does
      (.installRoutines _)
  have hruns : (sensorBound.run .beginNewEnvironment).1 = .error .breakdown
      ∧ ((sensorBound.assignCell 0 1.0).run .beginNewEnvironment).1
        = .ok [⟨"Main", .normal⟩] := by
    decide +kernel
  obtain ⟨hnan, hnumber⟩ := hruns
  refine ⟨hreach, ?_, fun hcut => ?_⟩
  · exact (Reachable.breaks_down_iff_comesToCut hreach rfl .beginNewEnvironment).1.1 hnan
  · have hbreaks := (Reachable.breaks_down_iff_comesToCut (hreach.does (.assignCell 0 1.0)) rfl
      .beginNewEnvironment).1.2 hcut
    rw [hnumber] at hbreaks
    cases hbreaks

/-- A program can bring a run down. -/
theorem sensorBound_breaks_down :
    sensorBound.compiled = true ∧ sensorBound.image.routines = .standard
      ∧ sensorBound.image.curves = Curves.empty.evaluator
      ∧ (sensorBound.run .beginNewEnvironment).1 = .error .breakdown := by
  have hrun : sensorBound.compiled = true
      ∧ (sensorBound.run .beginNewEnvironment).1 = .error .breakdown := by
    decide +kernel
  exact ⟨hrun.1, rfl, rfl, hrun.2⟩

end Controller

end Erl
