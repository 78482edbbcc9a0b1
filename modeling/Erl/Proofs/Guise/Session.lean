/-
  Erl.Proofs.Guise.Session

  Whole sessions in two guises.

  Runs of calling points and everything else that a host can ask of a controller keep two
  controllers the same and are answered alike.  By induction on the requests of a session all
  answers are alike, and the controllers at its end are the same.
-/

import Erl.Proofs.Controller.Session
import Erl.Proofs.Guise.Declaration
import Erl.Proofs.Guise.Execution

namespace Erl

/-- What a host is told, with the problems of code in the other spelling. -/
def Respelling.answer (r : Respelling) : Answer → Answer
  | .verdict (.error problems) => .verdict (.error (problems.map r.problem))
  | a => a

namespace Guise

open Respelling

variable {g : Guise}

/-! ## Exchange with the host -/

/-- Changes that keep stores the same keep them the same one after another. -/
theorem store_foldl {β : Type} {f : Store → β → Store}
    (hf : ∀ (t t' : Store) (b : β), g.store t = g.store t' → g.store (f t b) = g.store (f t' b))
    (xs : List β) {t t' : Store} (h : g.store t = g.store t') :
    g.store (xs.foldl f t) = g.store (xs.foldl f t') := by
  induction xs generalizing t t' with
  | nil => exact h
  | cons b rest ih => exact ih (hf t t' b h)

theorem readTie_congr (cells : Cells) (sources : Array SourcePoint) (t t' : Store) (tie : Tie)
    (h : g.store t = g.store t') :
    g.store (Exchange.readTie cells sources t tie)
      = g.store (Exchange.readTie cells sources t' tie) := by
  unfold Exchange.readTie
  split
  · exact set_congr h tie.target _
  · exact h

theorem refresh?_alike (b : Exchange) (cells : Cells) {t t' : Store}
    (h : g.store t = g.store t') :
    Option.Rel (fun u u' => g.store u = g.store u') (b.refresh? cells t) (b.refresh? cells t') := by
  unfold Exchange.refresh? Exchange.refresh
  split
  · refine .some ?_
    simp only [← Array.foldl_toList]
    exact store_foldl (readTie_congr cells b.internals) _
      (store_foldl (readTie_congr cells b.outputs) _ h)
  · exact .none

theorem commands?_same (b : Exchange) {t t' : Store} (h : g.store t = g.store t') :
    b.commands? t = b.commands? t' := by
  have hcommand : Exchange.command t = Exchange.command t' := by
    funext tie
    unfold Exchange.command
    rw [value_eq h]
  unfold Exchange.commands? Exchange.commands
  rw [hcommand]

theorem sampleTrend_same {t t' : Store} (h : g.store t = g.store t') :
    Controller.sampleTrend t = Controller.sampleTrend t' := by
  funext trend
  unfold Controller.sampleTrend
  rw [value_eq h]

/-- Each log takes in the refused writes if it is asked to. -/
theorem SameLog.reportRefused {l l' : Log} (h : g.SameLog l l') (cs : List Command) :
    g.SameLog (if g.left.errors then Controller.reportRefused l cs else l)
      (if g.right.errors then Controller.reportRefused l' cs else l') := by
  have hcons : ∀ (asked : Bool) (l : Log) (actuator : String) (v : Value) (cs : List Command),
      (if asked then Controller.reportRefused l (.refuse actuator v :: cs) else l)
        = if asked then Controller.reportRefused
            (if asked then l.record .runtimeError none
              ("actuator " ++ actuator ++ " holds " ++ v.display ++ " and was not written")
            else l) cs
          else if asked then l.record .runtimeError none
              ("actuator " ++ actuator ++ " holds " ++ v.display ++ " and was not written")
            else l := by
    intro asked l actuator v cs
    cases asked <;> rfl
  -- a log that is not asked to stays as it is all along, so each command is one `report`
  induction cs generalizing l l' with
  | nil =>
    show g.SameLog (if g.left.errors then l else l) (if g.right.errors then l' else l')
    rw [ite_self, ite_self]
    exact h
  | cons command rest ih =>
    cases command with
    | write available x => exact ih h
    | release available => exact ih h
    | refuse actuator v =>
      rw [hcons, hcons]
      exact ih (h.report none _)

/-! ## Runs -/

namespace SameController

variable {c c' : Controller} (h : g.SameController c c')
include h

theorem withMachine {m m' : Machine} (hm : g.SameMachine m m') :
    g.SameController { c with machine := m } { c' with machine := m' } :=
  { h with machine := hm }

theorem finishRun (commands : List Command) :
    g.SameController (c.finishRun commands) (c'.finishRun commands) := by
  have hlog := h.machine.log.reportRefused commands
  have htrends : c.image.trends.map (Controller.sampleTrend c.machine.store)
      = c'.image.trends.map (Controller.sampleTrend c'.machine.store) := by
    rw [h.image.trends, sampleTrend_same h.machine.store]
  rw [← h.image.left.errors, ← h.image.right.errors] at hlog
  exact { h with
    image := { h.image with trendCatalog := Catalog.ext_entries htrends }
    machine := h.machine.withLog hlog
    exchange := by
      show (c.exchange.performAll c.cells commands).1 = (c'.exchange.performAll c'.cells commands).1
      rw [h.exchange, h.cells]
    cells := by
      show (c.exchange.performAll c.cells commands).2 = (c'.exchange.performAll c'.cells commands).2
      rw [h.exchange, h.cells] }

theorem runPrograms {t t' : Store} (ht : g.store t = g.store t') (programs : List ProgramId) :
    g.SameResult (c.runPrograms t programs) (c'.runPrograms t' programs) := by
  have hall := runAll_same h.image (h.machine.withStore ht) programs
  unfold Controller.runPrograms
  generalize c.image.runAll { c.machine with store := t } programs = r at hall
  generalize c'.image.runAll { c'.machine with store := t' } programs = r' at hall
  obtain ⟨outcomes, stopped, m⟩ := r
  obtain ⟨outcomes', stopped', m'⟩ := r'
  obtain ⟨houtcomes, hstopped, hm⟩ := hall
  obtain rfl : outcomes = outcomes' := houtcomes
  obtain rfl : stopped = stopped' := hstopped
  have hc := h.withMachine hm
  cases stopped with
  | none =>
    have hcommands : c.exchange.commands? m.store = c'.exchange.commands? m'.store := by
      rw [h.exchange, commands?_same c'.exchange hm.store]
    dsimp only
    rw [hcommands]
    cases c'.exchange.commands? m'.store with
    | none => exact ⟨rfl, hc⟩
    | some commands => exact ⟨rfl, hc.finishRun commands⟩
  | some halt =>
    obtain ⟨program, interrupt⟩ := halt
    cases interrupt with
    | fatal message => exact ⟨rfl, { hc with terminated := rfl }⟩
    | breakdown => exact ⟨rfl, hc⟩
    | outOfSteps => exact ⟨rfl, hc⟩

theorem run (point : CallingPoint) : g.SameResult (c.run point) (c'.run point) := by
  unfold Controller.run
  rw [h.terminated, h.compiled, h.schedule]
  split
  · exact ⟨rfl, h⟩
  · split
    · exact ⟨rfl, h⟩
    · cases c'.schedule.programs point with
      | nil => exact ⟨rfl, h⟩
      | cons id rest =>
        -- the sources are read into variables at the same positions before anything runs
        have hrefresh := refresh?_alike c'.exchange c'.cells h.machine.store
        dsimp only
        rw [h.exchange, h.cells]
        generalize c'.exchange.refresh? c'.cells c.machine.store = x at hrefresh
        generalize c'.exchange.refresh? c'.cells c'.machine.store = y at hrefresh
        cases hrefresh with
        | none => exact ⟨rfl, h⟩
        | some ht => exact h.runPrograms ht (id :: rest)

/-! ## Requests -/

theorem updateClock (clock : Clock) :
    g.SameController (c.updateClock clock) (c'.updateClock clock) :=
  h.withStore (store_foldl (fun _ _ p ht => set_congr ht p.2 (.number p.1)) _ h.machine.store)

theorem readGlobal (name : String) : c.readGlobal name = c'.readGlobal name := by
  unfold Controller.readGlobal
  rw [global?_eq h.machine.store]
  cases c'.machine.store.global? name with
  | none => rfl
  | some id => exact congrArg Except.ok (value_eq h.machine.store id)

theorem readInProgram (program name : String) :
    c.readInProgram program name = c'.readInProgram program name := by
  unfold Controller.readInProgram
  rw [h.findProgram?]
  cases c'.image.findProgram? program with
  | none => rfl
  | some p =>
    dsimp only
    rw [lookup?_eq h.machine.store p rfl]
    cases c'.machine.store.lookup? p name with
    | none => rfl
    | some id => exact congrArg Except.ok (value_eq h.machine.store id)

theorem publishConstruction (name : String) :
    g.SameResult (c.publishConstruction name) (c'.publishConstruction name) := by
  unfold Controller.publishConstruction
  rw [h.constructionIndex?]
  cases c'.constructionIndex? name with
  | some index => exact ⟨rfl, h⟩
  | none =>
    refine ⟨?_, { h with constructions := ?_ }⟩
    · show c.constructions.size + 1 = c'.constructions.size + 1
      rw [h.constructions]
    · show c.constructions.push _ = c'.constructions.push _
      rw [h.constructions]

end SameController

variable (g) in
/-- Two answers that are the same, and the controllers after them. -/
def SameAnswer (r r' : Answer × Controller) : Prop :=
  g.answer r.1 = g.answer r'.1 ∧ g.SameController r.2 r'.2

theorem SameResult.answers {α : Type} {r r' : α × Controller} (h : g.SameResult r r')
    (tell : α → Answer) : g.SameAnswer (tell r.1, r.2) (tell r'.1, r'.2) :=
  ⟨congrArg (fun a => g.answer (tell a)) h.1, h.2⟩

namespace SameController

variable {c c' : Controller} (h : g.SameController c c')
include h

theorem verdict : g.answer (.verdict c.verdict) = g.answer (.verdict c'.verdict) := by
  unfold Controller.verdict
  rw [h.compiled]
  split
  · rfl
  · exact congrArg (fun problems => Answer.verdict (.error problems)) h.problems

/-- What one request keeps. -/
theorem ask? (request : Request) :
    Option.Rel g.SameAnswer (c.ask? request) (c'.ask? request) := by
  have hdeclared : ∀ {r r' : Except ModelProblem Nat × Controller}, g.SameResult r r' →
      g.SameAnswer (Controller.ask?.declared r) (Controller.ask?.declared r') :=
    fun hr => hr.answers .declared
  cases request with
  | installRoutines routines =>
    exact .some ⟨rfl, { h with image := { h.image with routines := rfl } }⟩
  | installCurves curves =>
    exact .some ⟨rfl, { h with image := { h.image with curves := rfl } }⟩
  | addCell cell =>
    refine .some ⟨?_, { h with cells := ?_ }⟩
    · show Answer.position c.cells.size = Answer.position c'.cells.size
      rw [h.cells]
    · show c.cells.push cell = c'.cells.push cell
      rw [h.cells]
  | assignCell id x =>
    exact .some ⟨rfl, { h with
      cells := congrArg (fun cells => cells.modify id fun cell => cell.assign x) h.cells }⟩
  | publishPoint p =>
    refine .some ⟨?_, { h with exchange := ?_ }⟩
    · show Answer.position (c.exchange.publishPoint p).1
        = Answer.position (c'.exchange.publishPoint p).1
      rw [h.exchange]
    · show (c.exchange.publishPoint p).2 = (c'.exchange.publishPoint p).2
      rw [h.exchange]
  | publishOutput p =>
    refine .some ⟨rfl, { h with exchange := ?_ }⟩
    show c.exchange.publishOutput p = c'.exchange.publishOutput p
    rw [h.exchange]
  | publishInternal p =>
    refine .some ⟨rfl, { h with exchange := ?_ }⟩
    show c.exchange.publishInternal p = c'.exchange.publishInternal p
    rw [h.exchange]
  | publishConstruction name => exact .some ((h.publishConstruction name).answers .position)
  | updateClock clock => exact .some ⟨rfl, h.updateClock clock⟩
  | readGlobal name =>
    exact .some ⟨congrArg (fun v => g.answer (.value v)) (h.readGlobal name), h⟩
  | readInProgram program name =>
    exact .some ⟨congrArg (fun v => g.answer (.value v)) (h.readInProgram program name), h⟩
  | writeGlobal name v =>
    unfold Controller.ask? Controller.writeGlobal
    dsimp only
    rw [global?_eq h.machine.store]
    cases c'.machine.store.global? name with
    | none => exact .some ⟨rfl, h⟩
    | some id =>
      dsimp only
      rw [isProtected_eq h.machine.store]
      cases c'.machine.store.isProtected id with
      | true => exact .some ⟨rfl, h⟩
      | false => exact .some ⟨rfl, h.withStore (set_congr h.machine.store id v)⟩
  | addGlobal name origin => exact .some (hdeclared (h.addGlobal name origin))
  | declareCurveIndex name curve => exact .some (hdeclared (h.declareCurveIndex name curve))
  | declareConstructionIndex name construction =>
    exact .some (hdeclared (h.declareConstructionIndex name construction))
  | attachActuator name componentType uniqueName controlType =>
    exact .some (hdeclared (h.attachActuator name componentType uniqueName controlType))
  | attachSensor name quantity key => exact .some (hdeclared (h.attachSensor name quantity key))
  | attachInternalVariable name quantity key =>
    exact .some (hdeclared (h.attachInternalVariable name quantity key))
  | declareTrend name variableName capacity =>
    exact rel_map (h.declareTrend? name variableName capacity) fun _ _ hr => hdeclared hr
  | addProgram name source => exact .some (hdeclared (h.addProgram name rfl))
  | addSubroutine name source => exact .some (hdeclared (h.addSubroutine name rfl))
  | bindProgram point name => exact .some ((h.bindProgram point name).answers .bound)
  | applyModel m => exact rel_map (h.withModel? m) fun _ _ hc => ⟨hc.verdict, hc⟩
  | compile => exact .some ⟨h.compile.verdict, h.compile⟩
  | run point => exact .some ((h.run point).answers .outcomes)

end SameController

/-- What a session keeps: all its answers are alike, and the controllers at its end are the
    same. -/
theorem SameController.askEach? {c c' : Controller} (h : g.SameController c c')
    (requests : List Request) :
    Option.Rel
      (fun r r' => r.1.map g.answer = r'.1.map g.answer ∧ g.SameController r.2 r'.2)
      (c.askEach? requests) (c'.askEach? requests) := by
  induction requests generalizing c c' with
  | nil => exact .some ⟨rfl, h⟩
  | cons request rest ih =>
    have hfirst := h.ask? request
    rw [Controller.askEach?, Controller.askEach?]
    generalize c.ask? request = x at hfirst
    generalize c'.ask? request = y at hfirst
    cases hfirst with
    | none => exact .none
    | some hr =>
      refine rel_map (ih hr.2) fun others others' hothers => ⟨?_, hothers.2⟩
      show g.answer _ :: others.1.map g.answer = g.answer _ :: others'.1.map g.answer
      rw [hr.1, hothers.1]

end Guise

end Erl
