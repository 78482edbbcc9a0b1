/-
  Erl.Proofs.Controller.Recompile

  Compiling again.

  Compiling replaces what it found and made before, except for the locals: those stay.  A local
  that was added for a name hides a global or trend that gets the same name later.  Unless that has
  happened, it makes no difference whether a controller was compiled while it was set up: compiled
  at the end, it has the same names, the same problems and the same runs.
-/

import Erl.Proofs.Controller.InStep

namespace Erl.Controller

/-! ## Setting up -/

/-- What a host does to set up a controller, before any run. -/
inductive SetupStep where
  | installRoutines (routines : Routines)
  | installCurves (curves : CurveEvaluator)
  | addCell (cell : Cell)
  | assignCell (id : CellId) (x : Float)
  | publishPoint (p : ControlPoint)
  | publishOutput (p : SourcePoint)
  | publishInternal (p : SourcePoint)
  | publishConstruction (name : String)
  | updateClock (clock : Clock)
  | writeGlobal (name : String) (v : Value)
  | declare (d : Declaration)
  | compile

def SetupStep.isCompile : SetupStep → Bool
  | compile => true
  | _ => false

/-- Takes a step.  What is refused leaves the controller as it was, except for the problem that a
    declaration records; there is no result if there cannot be room for the history of a trend. -/
def perform? (c : Controller) : SetupStep → Option Controller
  | .installRoutines routines => some (c.installRoutines routines)
  | .installCurves curves => some (c.installCurves curves)
  | .addCell cell => some (c.addCell cell).2
  | .assignCell id x => some (c.assignCell id x)
  | .publishPoint p => some (c.publishPoint p).2
  | .publishOutput p => some (c.publishOutput p)
  | .publishInternal p => some (c.publishInternal p)
  | .publishConstruction name => some (c.publishConstruction name).2
  | .updateClock clock => some (c.updateClock clock)
  | .writeGlobal name v => some ((c.writeGlobal name v).toOption.getD c)
  | .declare d => (c.declare? d).map Prod.snd
  | .compile => some c.compile

/-- Takes steps one after another. -/
def performAll? (c : Controller) (steps : List SetupStep) : Option Controller :=
  steps.foldlM perform? c

section Steps

variable {a b : Controller}

/-- A step other than compiling keeps controllers alike. -/
theorem Alike.perform? (h : Alike a b) {step : SetupStep} (hstep : step.isCompile = false) :
    Option.Rel Alike (a.perform? step) (b.perform? step) := by
  cases step with
  | installRoutines routines => exact .some { h with routines := rfl, explained := h.explained }
  | installCurves curves => exact .some { h with curves := rfl, explained := h.explained }
  | addCell cell =>
    exact .some { h with
      cells := congrArg (Array.push · cell) h.cells
      explained := h.explained }
  | assignCell id x =>
    exact .some { h with
      cells := congrArg (fun cells : Cells => cells.modify id fun cell => cell.assign x) h.cells
      explained := h.explained }
  | publishPoint p => exact .some (h.publishPoint p)
  | publishOutput p => exact .some (h.publishOutput p)
  | publishInternal p => exact .some (h.publishInternal p)
  | publishConstruction name => exact .some (h.publishConstruction name)
  | updateClock clock => exact .some (h.updateClock clock)
  | writeGlobal name v =>
    show Option.Rel Alike (some ((a.writeGlobal name v).toOption.getD a))
      (some ((b.writeGlobal name v).toOption.getD b))
    obtain ⟨a', b', hleft, hright, halike⟩ | ⟨e, hleft, hright⟩ := h.writeGlobal name v
    · rw [hleft, hright]
      exact .some halike
    · rw [hleft, hright]
      exact .some h
  | declare d =>
    have hdeclared := h.declare? d
    show Option.Rel Alike ((a.declare? d).map Prod.snd) ((b.declare? d).map Prod.snd)
    generalize a.declare? d = x at hdeclared
    generalize b.declare? d = y at hdeclared
    cases hdeclared with
    | none => exact .none
    | some halike => exact .some halike
  | compile => cases hstep

/-- Controllers stay alike if one of them takes all steps and the other one all but compiling. -/
theorem Alike.performAll? (h : Alike a b) (steps : List SetupStep) :
    Option.Rel Alike (a.performAll? steps) (b.performAll? (steps.filter (!·.isCompile))) := by
  unfold Controller.performAll?
  induction steps generalizing a b with
  | nil => exact .some h
  | cons step rest ih =>
    cases hstep : step.isCompile with
    | true =>
      obtain rfl : step = .compile := by
        cases step <;> first | rfl | cases hstep
      exact ih h.compile
    | false =>
      rw [List.filter_cons_of_pos (by simp [hstep]), List.foldlM_cons, List.foldlM_cons]
      have hfirst := h.perform? hstep
      generalize a.perform? step = x at hfirst
      generalize b.perform? step = y at hfirst
      cases hfirst with
      | none => exact .none
      | some halike => exact ih halike

end Steps

/-! ## Compiling at the end -/

/-- Compiling forgets that it was done before, except for the locals that it left.  Let a controller
    be set up by some steps, and another one by the same steps without compiling.  A local that the
    first one was left stays what its name stands for when both are compiled.  So a program has
    the same names in both exactly if none of the locals that it was left has the name of a global
    or trend.  If that holds of all programs, the same problems are reported, and whatever calling
    points are run, the runs end in the same way and leave all globals with the same values. -/
theorem compile_forgets (settings : Settings) (stream : RandomStream) {steps : List SetupStep}
    {c : Controller} (h : (ofSettings settings stream).performAll? steps = some c) :
    ∃ c', (ofSettings settings stream).performAll? (steps.filter (!·.isCompile)) = some c'
      ∧ (∀ program n, c.HasLocal program n → c.compile.standsFor? program n = some .own)
      ∧ (∀ program, (∀ n, c.compile.standsFor? program n = c'.compile.standsFor? program n)
          ↔ c.Untaken program)
      ∧ ((∀ program, c.Untaken program) →
          c.compile.problems = c'.compile.problems ∧ c.compile.verdict = c'.compile.verdict
            ∧ ∀ points : List CallingPoint,
                (c.compile.runEach points).1 = (c'.compile.runEach points).1
                  ∧ ∀ n, (c.compile.runEach points).2.readGlobal n
                      = (c'.compile.runEach points).2.readGlobal n) := by
  have hsteps := (alike_ofSettings settings stream).performAll? steps
  rw [h] at hsteps
  generalize (ofSettings settings stream).performAll? (steps.filter (!·.isCompile)) = r at hsteps ⊢
  cases hsteps with
  | @some _ c' halike =>
    refine ⟨c', rfl, fun program n hlocal => standsFor?_of_local hlocal.compile,
      halike.standsFor?_eq_iff, fun huntaken => ?_⟩
    have hproblems := halike.problems_compile_eq huntaken
    have hcompiled := halike.compiled_eq huntaken
    refine ⟨hproblems, ?_, fun points => ?_⟩
    · rw [verdict, verdict, hcompiled, hproblems]
    · obtain ⟨hresults, hstep⟩ := (halike.inStep huntaken).runEach (halike.codeAlike huntaken)
        ⟨rfl, rfl, rfl⟩ ⟨rfl, rfl, rfl⟩ points
      exact ⟨hresults, halike.readGlobal_eq hstep (fun n => find?_runEach .global n _ points)
        fun n => find?_runEach .global n _ points⟩

/-- A program that calls a subroutine is compiled before there is the subroutine, so there is a
    problem at first, and before there is the global that the subroutine assigns. -/
def compiledEarly : List SetupStep :=
  [.declare (.program ⟨"Main", "SET y = x\nRUN Sub"⟩), .compile,
    .declare (.global ⟨"z", .user, none⟩), .declare (.subroutine ⟨"Sub", "SET z = 2"⟩),
    .declare (.bind .beginTimestepBeforePredictor "Main")]

theorem compile_forgets_compiledEarly :
    ∃ c c', (ofSettings .default .zero).performAll? compiledEarly = some c
      ∧ (ofSettings .default .zero).performAll? (compiledEarly.filter (!·.isCompile)) = some c'
      ∧ c.problems = [.unknownSubroutine "Main" "Sub" 2] ∧ c.HasLocal 0 "x"
      ∧ (∀ program n, c.compile.standsFor? program n = c'.compile.standsFor? program n)
      ∧ c.compile.verdict = .ok () ∧ c'.compile.verdict = .ok ()
      ∧ (c.compile.runEach [.beginTimestepBeforePredictor]).1 = [.ok [⟨"Main", .normal⟩]]
      ∧ (c.compile.runEach [.beginTimestepBeforePredictor]).2.readGlobal "z"
          = .ok (.number 2.0) := by
  have hleft : ((ofSettings .default .zero).performAll? compiledEarly).any (fun c =>
      (∀ v ∈ c.machine.store.entries, v.scope ≠ .global → c.IsFree v.name)
        ∧ c.problems = [.unknownSubroutine "Main" "Sub" 2]
        ∧ c.machine.store.find? (.local_ 0) "x" ≠ none) = true := by
    decide +kernel
  have hright : ((ofSettings .default .zero).performAll? (compiledEarly.filter (!·.isCompile))).all
      (fun c' => c'.compile.verdict = .ok ()
        ∧ (c'.compile.runEach [.beginTimestepBeforePredictor]).1 = [.ok [⟨"Main", .normal⟩]]
        ∧ (c'.compile.runEach [.beginTimestepBeforePredictor]).2.readGlobal "z"
            = .ok (.number 2.0)) = true := by
    decide +kernel
  obtain ⟨c, hc, hmade⟩ := (Option.any_eq_true _ _).1 hleft
  obtain ⟨hfree, hproblems, hlocal⟩ := of_decide_eq_true hmade
  have huntaken : ∀ program, c.Untaken program :=
    fun program v hv hscope => hfree v hv (by simp [hscope])
  obtain ⟨c', hc', -, hnames, hsame⟩ := compile_forgets .default .zero hc
  obtain ⟨-, hverdict, hruns⟩ := hsame huntaken
  obtain ⟨hresults, hvalues⟩ := hruns [.beginTimestepBeforePredictor]
  rw [hc'] at hright
  obtain ⟨hright, houtcomes, hvalue⟩ := of_decide_eq_true hright
  exact ⟨c, c', hc, hc', hproblems, hlocal, fun program => (hnames program).2 (huntaken program),
    hverdict.trans hright, hright, hresults.trans houtcomes, (hvalues "z").trans hvalue⟩

/-- A global is declared after a program that assigns its name was compiled. -/
def hiddenGlobal : List SetupStep :=
  [.declare (.program ⟨"Main", "SET x = 1"⟩), .compile, .declare (.global ⟨"x", .user, none⟩),
    .declare (.bind .beginTimestepBeforePredictor "Main")]

/-- The local that compiling left hides the global, so the program does not assign it. -/
theorem hiddenGlobal_not_assigned :
    ∃ c c', (ofSettings .default .zero).performAll? hiddenGlobal = some c
      ∧ (ofSettings .default .zero).performAll? (hiddenGlobal.filter (!·.isCompile)) = some c'
      ∧ c.compile.standsFor? 0 "x" = some .own
      ∧ c'.compile.standsFor? 0 "x" = some (.global ⟨"x", .global, .user, .null, none⟩)
      ∧ (c.compile.runEach [.beginTimestepBeforePredictor]).2.readGlobal "x" = .ok .null
      ∧ (c'.compile.runEach [.beginTimestepBeforePredictor]).2.readGlobal "x"
          = .ok (.number 1.0) := by
  have hleft : ((ofSettings .default .zero).performAll? hiddenGlobal).any (fun c =>
      c.compile.standsFor? 0 "x" = some .own
        ∧ (c.compile.runEach [.beginTimestepBeforePredictor]).2.readGlobal "x"
            = .ok .null) = true := by
    decide +kernel
  have hright : ((ofSettings .default .zero).performAll? (hiddenGlobal.filter (!·.isCompile))).any
      (fun c' => c'.compile.standsFor? 0 "x" = some (.global ⟨"x", .global, .user, .null, none⟩)
        ∧ (c'.compile.runEach [.beginTimestepBeforePredictor]).2.readGlobal "x"
            = .ok (.number 1.0)) = true := by
    decide +kernel
  obtain ⟨c, hc, hmade⟩ := (Option.any_eq_true _ _).1 hleft
  obtain ⟨c', hc', hmade'⟩ := (Option.any_eq_true _ _).1 hright
  obtain ⟨hname, hvalue⟩ := of_decide_eq_true hmade
  obtain ⟨hname', hvalue'⟩ := of_decide_eq_true hmade'
  exact ⟨c, c', hc, hc', hname, hname', hvalue, hvalue'⟩

end Erl.Controller
