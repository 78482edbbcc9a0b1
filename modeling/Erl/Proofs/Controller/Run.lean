/-
  Erl.Proofs.Controller.Run

  How a run of a calling point ends.

  A run that may start reads the sources and lets the bound programs run one after another.  It
  gets through all of them and carries out the actuators, or one of the programs is interrupted
  and neither the programs after it nor the actuators come to their turn.  `RunsTo` lists all
  ends with what is left of the controller.
-/

import Erl.Controller.Run
import Erl.Proofs.Machine.Change

namespace Erl

/-! ## Programs one after another -/

/-- Programs run one after another, each to its end. -/
inductive Image.Runs (img : Image) : Machine → List ProgramId → List Outcome → Machine → Prop where
  | nil {m : Machine} : Runs img m [] [] m
  | cons {m m₁ m' : Machine} {id : ProgramId} {status : Ending} {rest : List ProgramId}
      {outcomes : List Outcome} :
      img.runMain id m = .ok status m₁ → Runs img m₁ rest outcomes m' →
      Runs img m (id :: rest) (⟨img.programName id, status⟩ :: outcomes) m'

/-- Programs run one after another up to one that is interrupted; those after it do not run. -/
def Image.Stops (img : Image) (m : Machine) (programs : List ProgramId)
    (outcomes : List Outcome) (id : ProgramId) (interrupt : Interrupt) (m' : Machine) : Prop :=
  ∃ before after ended m₁, programs = before ++ id :: after
    ∧ img.Runs m before ended m₁ ∧ img.runMain id m₁ = .error interrupt m'
    ∧ outcomes = ended ++ [⟨img.programName id, .fatal⟩]

namespace Image

variable {img : Image} {m m' : Machine} {programs : List ProgramId} {outcomes : List Outcome}

/-- Programs that get through to the last one run each to its end. -/
theorem runs_of_runAll (h : img.runAll m programs = (outcomes, none, m')) :
    img.Runs m programs outcomes m' := by
  induction programs generalizing m outcomes with
  | nil =>
    cases h
    exact .nil
  | cons id rest ih =>
    rw [runAll] at h
    cases hmain : img.runMain id m with
    | ok status m₁ =>
      obtain ⟨others, stopped, m₂, hrest⟩ : ∃ others stopped m₂,
          img.runAll m₁ rest = (others, stopped, m₂) := ⟨_, _, _, rfl⟩
      simp only [hmain, hrest] at h
      cases h
      exact .cons hmain (ih hrest)
    | error interrupt m₁ =>
      rw [hmain] at h
      cases h

/-- Programs that do not get through stop at the one that was interrupted. -/
theorem stops_of_runAll {name : String} {interrupt : Interrupt}
    (h : img.runAll m programs = (outcomes, some (name, interrupt), m')) :
    ∃ id, name = img.programName id ∧ img.Stops m programs outcomes id interrupt m' := by
  induction programs generalizing m outcomes with
  | nil => cases h
  | cons id rest ih =>
    rw [runAll] at h
    cases hmain : img.runMain id m with
    | ok status m₁ =>
      obtain ⟨others, stopped, m₂, hrest⟩ : ∃ others stopped m₂,
          img.runAll m₁ rest = (others, stopped, m₂) := ⟨_, _, _, rfl⟩
      simp only [hmain, hrest] at h
      cases h
      obtain ⟨stop, hname, before, after, ended, m₂, rfl, hruns, hstop, rfl⟩ := ih hrest
      exact ⟨stop, hname, id :: before, after, _, m₂, rfl, .cons hmain hruns, hstop, rfl⟩
    | error interrupt' m₁ =>
      rw [hmain] at h
      cases h
      exact ⟨id, rfl, [], rest, [], m, rfl, .nil, hmain, rfl⟩

/-- Programs that run to their ends are followed by the others. -/
theorem Runs.runAll_append (h : img.Runs m programs outcomes m') (rest : List ProgramId) :
    img.runAll m (programs ++ rest) = (outcomes ++ (img.runAll m' rest).1,
      (img.runAll m' rest).2.1, (img.runAll m' rest).2.2) := by
  induction h with
  | nil => rfl
  | cons hmain _ ih =>
    rw [List.cons_append, runAll, hmain]
    dsimp only
    rw [ih, List.cons_append]

/-- A program that is interrupted stops the programs. -/
theorem Stops.runAll {id : ProgramId} {interrupt : Interrupt}
    (h : img.Stops m programs outcomes id interrupt m') :
    img.runAll m programs = (outcomes, some (img.programName id, interrupt), m') := by
  obtain ⟨before, after, ended, m₁, rfl, hruns, hstop, rfl⟩ := h
  rw [hruns.runAll_append, Image.runAll, hstop]

/-- Programs that run to their ends make only changes that programs make. -/
theorem Runs.becomes (h : img.Runs m programs outcomes m') : m.Becomes img m' := by
  induction h with
  | nil => exact .refl
  | @cons m m₁ m' id status rest outcomes hmain _ ih =>
    have hfirst := img.invoke_abides img.settings.limits.depth id m
    rw [show img.invoke img.settings.limits.depth id m = .ok status m₁ from hmain] at hfirst
    exact .trans hfirst ih

/-- A program that is interrupted makes only changes that programs make, and after a request
    for a fatal halt there is one fatal message more. -/
theorem Stops.endsWith {id : ProgramId} {interrupt : Interrupt}
    (h : img.Stops m programs outcomes id interrupt m') :
    m.EndsWith img (.error interrupt m' : EStateM.Result Interrupt Machine Ending) := by
  obtain ⟨before, after, ended, m₁, -, hruns, hstop, -⟩ := h
  have hlast := img.invoke_abides img.settings.limits.depth id m₁
  rw [show img.invoke img.settings.limits.depth id m₁ = .error interrupt m' from hstop] at hlast
  exact .after hruns.becomes hlast

/-- The variables after a program was interrupted are those of a machine before the interrupt. -/
theorem Stops.store {id : ProgramId} {interrupt : Interrupt}
    (h : img.Stops m programs outcomes id interrupt m') :
    ∃ m₁, m.Becomes img m₁ ∧ m'.store = m₁.store := by
  have hends := h.endsWith
  cases interrupt with
  | fatal message =>
    obtain ⟨m₁, program, hbecomes, rfl⟩ := hends
    exact ⟨m₁, hbecomes, rfl⟩
  | breakdown => exact ⟨m', hends, rfl⟩
  | outOfSteps => exact ⟨m', hends, rfl⟩

/-- One outcome for each program, in order. -/
theorem Runs.map_program (h : img.Runs m programs outcomes m') :
    outcomes.map Outcome.program = programs.map img.programName := by
  induction h with
  | nil => rfl
  | cons _ _ ih => rw [List.map_cons, List.map_cons, ih]

end Image

/-! ## Ends of a run -/

namespace Controller

/-- A run that may start, with the variables that it starts from. -/
structure Starts (c : Controller) (point : CallingPoint) (store : Store) : Prop where
  active : c.terminated = false
  compiled : c.compiled = true
  bound : c.schedule.programs point ≠ []
  refreshed : c.exchange.refresh? c.cells c.machine.store = some store

/-- How a run can end, and what it leaves of the controller. -/
inductive RunsTo (c : Controller) (point : CallingPoint) :
    Except RunError (List Outcome) → Controller → Prop where
  | terminated : c.terminated = true → RunsTo c point (.error .terminated) c
  | notCompiled : c.terminated = false → c.compiled = false →
      RunsTo c point (.error .notCompiled) c
  | nothing : c.terminated = false → c.compiled = true → c.schedule.programs point = [] →
      RunsTo c point (.ok []) c
  | unreadable : c.exchange.refresh? c.cells c.machine.store = none →
      RunsTo c point (.error .breakdown) c
  | done {store : Store} {outcomes : List Outcome} {m : Machine} {commands : List Command} :
      c.Starts point store →
      c.image.Runs { c.machine with store } (c.schedule.programs point) outcomes m →
      c.exchange.commands? m.store = some commands →
      RunsTo c point (.ok outcomes) ({ c with machine := m }.finishRun commands)
  | unwritable {store : Store} {outcomes : List Outcome} {m : Machine} :
      c.Starts point store →
      c.image.Runs { c.machine with store } (c.schedule.programs point) outcomes m →
      c.exchange.commands? m.store = none →
      RunsTo c point (.error .breakdown) { c with machine := m }
  | fatal {store : Store} {outcomes : List Outcome} {id : ProgramId} {message : String}
      {m : Machine} :
      c.Starts point store →
      c.image.Stops { c.machine with store } (c.schedule.programs point) outcomes id
        (.fatal message) m →
      RunsTo c point (.error (.fatalHalt (c.image.programName id) message outcomes))
        { c with machine := m, terminated := true }
  | breakdown {store : Store} {outcomes : List Outcome} {id : ProgramId} {m : Machine} :
      c.Starts point store →
      c.image.Stops { c.machine with store } (c.schedule.programs point) outcomes id .breakdown m →
      RunsTo c point (.error .breakdown) { c with machine := m }
  | outOfSteps {store : Store} {outcomes : List Outcome} {id : ProgramId} {m : Machine} :
      c.Starts point store →
      c.image.Stops { c.machine with store } (c.schedule.programs point) outcomes id .outOfSteps m →
      RunsTo c point (.error .outOfSteps) { c with machine := m }

/-- A run that may not start changes nothing.  In any other the variables are refreshed and then
    changed by programs only, however it ends. -/
theorem RunsTo.store {c c' : Controller} {point : CallingPoint}
    {r : Except RunError (List Outcome)} (h : RunsTo c point r c') :
    (c' = c ∧ ∀ store, ¬ c.Starts point store)
      ∨ ∃ store m, c.Starts point store
        ∧ Machine.Becomes c.image { c.machine with store } m ∧ c'.machine.store = m.store := by
  cases h with
  | terminated hterminated =>
    exact .inl ⟨rfl, fun store hstarts => by simp [hstarts.active] at hterminated⟩
  | notCompiled _ hcompiled =>
    exact .inl ⟨rfl, fun store hstarts => by simp [hstarts.compiled] at hcompiled⟩
  | nothing _ _ hnone => exact .inl ⟨rfl, fun store hstarts => hstarts.bound hnone⟩
  | unreadable hnone =>
    exact .inl ⟨rfl, fun store hstarts => by simp [hstarts.refreshed] at hnone⟩
  | done hstarts hruns _ => exact .inr ⟨_, _, hstarts, hruns.becomes, rfl⟩
  | unwritable hstarts hruns _ => exact .inr ⟨_, _, hstarts, hruns.becomes, rfl⟩
  | fatal hstarts hstops =>
    obtain ⟨m₁, hbecomes, heq⟩ := hstops.store
    exact .inr ⟨_, m₁, hstarts, hbecomes, heq⟩
  | breakdown hstarts hstops =>
    obtain ⟨m₁, hbecomes, heq⟩ := hstops.store
    exact .inr ⟨_, m₁, hstarts, hbecomes, heq⟩
  | outOfSteps hstarts hstops =>
    obtain ⟨m₁, hbecomes, heq⟩ := hstops.store
    exact .inr ⟨_, m₁, hstarts, hbecomes, heq⟩

/-- A run at a calling point with programs. -/
theorem run_of_bound {c : Controller} {point : CallingPoint}
    (h : c.schedule.programs point ≠ []) :
    c.run point
      = if c.terminated then (.error .terminated, c)
        else if !c.compiled then (.error .notCompiled, c)
        else (c.exchange.refresh? c.cells c.machine.store).elim (.error .breakdown, c)
          fun store => c.runPrograms store (c.schedule.programs point) := by
  obtain ⟨first, rest, hbound⟩ := List.exists_cons_of_ne_nil h
  simp only [run, hbound]
  cases c.exchange.refresh? c.cells c.machine.store <;> rfl

/-- A run that starts is a run of its programs. -/
theorem Starts.run_eq {c : Controller} {point : CallingPoint} {store : Store}
    (h : c.Starts point store) :
    c.run point = c.runPrograms store (c.schedule.programs point) := by
  rw [run_of_bound h.bound, h.active, h.compiled, h.refreshed]
  rfl

theorem runPrograms_runsTo {c : Controller} {point : CallingPoint} {store : Store}
    (h : c.Starts point store) :
    RunsTo c point (c.runPrograms store (c.schedule.programs point)).1
      (c.runPrograms store (c.schedule.programs point)).2 := by
  unfold runPrograms
  generalize hr : c.image.runAll { c.machine with store } (c.schedule.programs point) = r
  obtain ⟨outcomes, stopped, m⟩ := r
  rcases stopped with _ | ⟨name, interrupt⟩
  · have hruns := Image.runs_of_runAll hr
    dsimp only
    split
    · next commands hcommands => exact .done h hruns hcommands
    · next hcommands => exact .unwritable h hruns hcommands
  · obtain ⟨id, rfl, hstops⟩ := Image.stops_of_runAll hr
    cases interrupt with
    | fatal message => exact .fatal h hstops
    | breakdown => exact .breakdown h hstops
    | outOfSteps => exact .outOfSteps h hstops

/-- A run ends in one of these ways. -/
theorem run_runsTo (c : Controller) (point : CallingPoint) :
    RunsTo c point (c.run point).1 (c.run point).2 := by
  unfold run
  cases hterminated : c.terminated with
  | true => exact .terminated hterminated
  | false =>
    cases hcompiled : c.compiled with
    | false => exact .notCompiled hterminated hcompiled
    | true =>
      simp only [Bool.false_eq_true, if_false, Bool.not_true]
      split
      · next hnone => exact .nothing hterminated hcompiled hnone
      · next hbound =>
        split
        · next store hstore =>
          exact runPrograms_runsTo ⟨hterminated, hcompiled, hbound, hstore⟩
        · next hstore => exact .unreadable hstore

end Controller

end Erl
