/-
  Erl.Proofs.Model.Refused

  What a refused declaration does to the rest of a model: nothing.

  A model is applied step by step, and the answer to each step is kept beside it.  The steps that
  were not refused make the same controller without the others, because a refused step leaves
  nothing behind but its problem, and no step looks at the problems of others.  The model without
  its refused parts has just these steps.
-/

import Erl.Proofs.Controller.InPlace
import Erl.Proofs.Controller.Replay

namespace Erl

/-! ## One step -/

namespace InPlace

open Controller (checkName)

/-- Declares a global and lets it start with a number. -/
def declareInitial (d : GlobalDeclaration) : InPlace VariableId := do
  let id ← addGlobal d.name d.origin
  modifyGet fun c =>
    (id, d.initial.elim c fun x => c.withStore (c.machine.store.set id (.number x)))

theorem declareInitial_performs (d : GlobalDeclaration) :
    (declareInitial d).Performs fun c => some (c.declareInitial d) := by
  have hglobal : (addGlobal d.name d.origin).Attempts fun c => (do
      checkName .globalVariable d.name
      c.attemptVariable d.name d.origin) :=
    .demand (.name _ d.name) fun _ => addVariable_attempts d.name d.origin
  refine (hglobal.andThen fun _ c _ => ?_).performs fun c => ?_
  · cases d.initial <;> rfl
  · unfold Controller.declareInitial Controller.addGlobal
    cases (do checkName .globalVariable d.name; c.attemptVariable d.name d.origin :
      Except ModelProblem (VariableId × Controller)) with
    | error problem => cases d.initial <;> rfl
    | ok r => cases d.initial <;> rfl

end InPlace

namespace Controller

variable {α : Type}

/-- What an operation leaves when it is refused is its problem, which compiling does not find, and
    it does not depend on the problems that others had. -/
structure IsInert (operation? : Controller → Option (Except ModelProblem α × Controller)) :
    Prop where
  refused : ∀ {c problem c'}, operation? c = some (.error problem, c') →
    c' = c.withReport (c.problems ++ [problem]) ∧ problem.isFoundByCompiling = false
  accepted : ∀ {c a c'}, operation? c = some (.ok a, c') →
    c'.problems = c.problems
      ∧ ∀ report, operation? (c.withReport report) = some (.ok a, c'.withReport report)
  broken : ∀ {c}, operation? c = none → ∀ report, operation? (c.withReport report) = none

theorem isInert_of_performs {x : InPlace α}
    {operation? : Controller → Option (Except ModelProblem α × Controller)}
    (h : x.Performs operation?) : IsInert operation? := by
  obtain ⟨attempt, full, hattempts, hfull, heq⟩ := id h
  refine ⟨fun {c problem c'} hrefused => ⟨?_, ?_⟩, fun {c a c'} haccepted => ⟨?_, ?_⟩,
    fun {c} hbroken report => ?_⟩
  · exact (isAtomic_of_performs h hrefused).refused problem rfl
  · rw [heq] at hrefused
    cases hroom : full c with
    | true =>
      rw [hroom] at hrefused
      cases hrefused
    | false =>
      rw [hroom] at hrefused
      cases hattempt : attempt c with
      | ok r =>
        rw [hattempt] at hrefused
        cases hrefused
      | error problem' =>
        rw [hattempt] at hrefused
        cases hrefused
        exact hattempts.problem c problem hattempt
  · exact (isAtomic_of_performs h haccepted).accepted a rfl
  · intro report
    rw [heq] at haccepted
    rw [heq, hfull]
    cases hroom : full c with
    | true =>
      rw [hroom] at haccepted
      cases haccepted
    | false =>
      rw [hroom] at haccepted
      have hreport := hattempts.report c report
      cases hattempt : attempt c with
      | ok r =>
        rw [hattempt] at haccepted hreport
        cases haccepted
        rw [hreport]
        rfl
      | error problem' =>
        rw [hattempt] at haccepted
        cases haccepted
  · rw [heq] at hbroken
    rw [heq, hfull]
    cases hroom : full c with
    | true => rfl
    | false =>
      rw [hroom] at hbroken
      cases hbroken

theorem IsInert.discard {operation? : Controller → Option (Except ModelProblem Nat × Controller)}
    (h : IsInert operation?) : IsInert fun c => (operation? c).map declare?.discard := by
  refine ⟨fun {c problem c'} hrefused => ?_, fun {c a c'} haccepted => ?_,
    fun {c} hbroken report => ?_⟩
  · obtain ⟨⟨answer, _⟩, hanswer, heq⟩ := Option.map_eq_some_iff.1 hrefused
    cases answer with
    | error problem' =>
      cases heq
      exact h.refused hanswer
    | ok n => cases heq
  · obtain ⟨⟨answer, _⟩, hanswer, heq⟩ := Option.map_eq_some_iff.1 haccepted
    cases answer with
    | error problem' => cases heq
    | ok n =>
      cases heq
      refine ⟨(h.accepted hanswer).1, fun report => ?_⟩
      rw [(h.accepted hanswer).2 report]
      rfl
  · rw [h.broken (Option.map_eq_none_iff.1 hbroken) report]
    rfl

/-- Every step of applying a model is inert when it is refused. -/
theorem declare?_isInert (d : Declaration) : IsInert fun c => c.declare? d := by
  cases d with
  | global d => exact (isInert_of_performs (InPlace.declareInitial_performs d)).discard
  | sensor d =>
    exact (isInert_of_performs (InPlace.attachSensor_performs d.name d.quantity d.key)).discard
  | actuator d =>
    exact (isInert_of_performs (InPlace.attachActuator_performs
      d.name d.componentType d.uniqueName d.controlType)).discard
  | internalVariable d =>
    exact (isInert_of_performs
      (InPlace.attachInternalVariable_performs d.name d.quantity d.key)).discard
  | curveIndex d =>
    exact (isInert_of_performs (InPlace.declareCurveIndex_performs d.name d.subject)).discard
  | constructionIndex d =>
    exact (isInert_of_performs
      (InPlace.declareConstructionIndex_performs d.name d.subject)).discard
  | trend d =>
    exact (isInert_of_performs
      (InPlace.addTrend_performs d.name d.source d.capacity)).discard
  | program d =>
    exact (isInert_of_performs ((InPlace.addProgram_attempts .program .main d.name
      d.source).performs fun _ => rfl)).discard
  | subroutine d =>
    exact (isInert_of_performs ((InPlace.addProgram_attempts .subroutine .subroutine d.name
      d.source).performs fun _ => rfl)).discard
  | unknownPoint name =>
    have hthrow : (throw (.unknownCallingPoint name) : InPlace Unit).Performs
        fun c => some (c.orRecord (.error (.unknownCallingPoint name))) :=
      (InPlace.Attempts.throw rfl).performs fun _ => rfl
    exact isInert_of_performs hthrow
  | bind point program =>
    exact isInert_of_performs ((InPlace.bindProgram_attempts point program).performs fun _ => rfl)

/-! ## All steps -/

/-- The problem for which a step is refused. -/
def refusal? (c : Controller) (d : Declaration) : Option ModelProblem :=
  match c.declare? d with
  | some (.error problem, _) => some problem
  | _ => none

/-- The controller after a step; a step without a result is passed over. -/
def after (c : Controller) (d : Declaration) : Controller :=
  ((c.declare? d).map Prod.snd).getD c

/-- The steps, each with the problem for which it is refused. -/
def verdicts (c : Controller) : List Declaration → List (Declaration × Option ModelProblem)
  | [] => []
  | d :: rest => (d, c.refusal? d) :: (c.after d).verdicts rest

/-- The steps that are not refused. -/
def acceptedSteps (c : Controller) (steps : List Declaration) : List Declaration :=
  ((c.verdicts steps).filter (·.2.isNone)).map Prod.fst

/-- Takes steps one after another, unless one has no result. -/
def declareAll? (c : Controller) (steps : List Declaration) : Option Controller :=
  steps.foldlM (fun (c : Controller) d => (c.declare? d).map Prod.snd) c

theorem map_fst_verdicts (c : Controller) (steps : List Declaration) :
    (c.verdicts steps).map Prod.fst = steps := by
  induction steps generalizing c with
  | nil => rfl
  | cons d rest ih => exact congrArg (d :: ·) (ih (c.after d))

theorem acceptedSteps_cons (c : Controller) (d : Declaration) (rest : List Declaration) :
    c.acceptedSteps (d :: rest)
      = if (c.refusal? d).isNone then d :: (c.after d).acceptedSteps rest
        else (c.after d).acceptedSteps rest := by
  show List.map Prod.fst (List.filter _ ((d, c.refusal? d) :: _)) = _
  rw [List.filter_cons]
  dsimp only
  split <;> rfl

theorem acceptedSteps_append (c : Controller) (steps others : List Declaration) :
    c.acceptedSteps (steps ++ others)
      = c.acceptedSteps steps ++ (steps.foldl after c).acceptedSteps others := by
  induction steps generalizing c with
  | nil => rfl
  | cons d rest ih =>
    rw [List.cons_append, acceptedSteps_cons, acceptedSteps_cons, ih, List.foldl_cons]
    split <;> rfl

theorem declareAll?_cons (c : Controller) (d : Declaration) (rest : List Declaration) :
    c.declareAll? (d :: rest) = (c.declare? d).bind fun r => r.2.declareAll? rest := by
  show ((c.declare? d).map Prod.snd).bind _ = _
  rw [Option.bind_map]
  rfl

/-- The steps that are not refused make the same controller, whatever problems there were. -/
theorem declareAll?_acceptedSteps (steps : List Declaration) (c : Controller)
    (report : ProblemReport) :
    (c.withReport report).declareAll? (c.acceptedSteps steps)
      = (c.declareAll? steps).map (·.withReport report) := by
  induction steps generalizing c with
  | nil => rfl
  | cons d rest ih =>
    rw [acceptedSteps_cons, declareAll?_cons]
    cases hstep : c.declare? d with
    | none =>
      -- without a result there is no refusal: the step is kept, and has no result again
      have hkept : c.refusal? d = none := by rw [refusal?, hstep]
      have hagain := (declare?_isInert d).broken hstep report
      rw [hkept, if_pos Option.isNone_none, declareAll?_cons, hagain]
      rfl
    | some r =>
      obtain ⟨answer, c'⟩ := r
      have hafter : c.after d = c' := by rw [after, hstep]; rfl
      rw [hafter]
      cases answer with
      | error problem =>
        have hdropped : c.refusal? d = some problem := by rw [refusal?, hstep]
        obtain ⟨rfl, -⟩ := (declare?_isInert d).refused hstep
        rw [hdropped]
        exact ih (c.withReport (c.problems ++ [problem]))
      | ok a =>
        have hkept : c.refusal? d = none := by rw [refusal?, hstep]
        have hagain := ((declare?_isInert d).accepted hstep).2 report
        rw [hkept, if_pos Option.isNone_none, declareAll?_cons, hagain]
        exact ih c'

/-- Steps add the problems of those that are refused to the report. -/
theorem problems_declareAll? (steps : List Declaration) {c c' : Controller}
    (h : c.declareAll? steps = some c') :
    c'.problems = c.problems ++ (c.verdicts steps).filterMap Prod.snd := by
  induction steps generalizing c with
  | nil =>
    cases h
    exact (List.append_nil _).symm
  | cons d rest ih =>
    rw [declareAll?_cons] at h
    obtain ⟨⟨answer, c₁⟩, hstep, hrest⟩ := Option.bind_eq_some_iff.1 h
    have hafter : c.after d = c₁ := by rw [after, hstep]; rfl
    rw [ih hrest, verdicts, hafter, List.filterMap_cons]
    cases answer with
    | error problem =>
      have hrefusal : c.refusal? d = some problem := by rw [refusal?, hstep]
      obtain ⟨rfl, -⟩ := (declare?_isInert d).refused hstep
      rw [hrefusal]
      exact List.append_assoc ..
    | ok a =>
      have hrefusal : c.refusal? d = none := by rw [refusal?, hstep]
      rw [hrefusal, ((declare?_isInert d).accepted hstep).1]

/-- Compiling does not find the problems for which steps are refused. -/
theorem verdicts_problem (steps : List Declaration) (c : Controller) :
    ∀ problem ∈ (c.verdicts steps).filterMap Prod.snd, problem.isFoundByCompiling = false := by
  induction steps generalizing c with
  | nil => exact fun _ h => by cases h
  | cons d rest ih =>
    intro problem hproblem
    rw [verdicts, List.filterMap_cons] at hproblem
    cases hrefusal : c.refusal? d with
    | none =>
      rw [hrefusal] at hproblem
      exact ih _ problem hproblem
    | some problem' =>
      rw [hrefusal] at hproblem
      rcases List.mem_cons.1 hproblem with rfl | hrest
      · unfold refusal? at hrefusal
        split at hrefusal
        · cases hrefusal
          exact ((declare?_isInert d).refused (by assumption)).2
        · cases hrefusal
      · exact ih _ problem hrest

/-! ## Parts of a model -/

/-- Takes a step; the answer is whether it was accepted. -/
def tryStep (d : Declaration) : StateM Controller Bool :=
  fun c => ((c.refusal? d).isNone, c.after d)

/-- Takes the steps of some parts of a model, and keeps the parts that are accepted. -/
def sift (step : α → Declaration) : List α → StateM Controller (List α)
  | [] => pure []
  | a :: rest => do
    let accepted ← tryStep (step a)
    let others ← sift step rest
    return if accepted then a :: others else others

/-- Keeps the accepted programs of a manager, and the manager unless its calling point is
    refused. -/
def siftManager (d : ManagerDeclaration) : StateM Controller (List ManagerDeclaration) :=
  match CallingPoint.find? d.point with
  | none => do return if ← tryStep (.unknownPoint d.point) then [d] else []
  | some point => do return [{ d with programs := ← sift (.bind point) d.programs }]

/-- Keeps what is accepted of some managers. -/
def siftManagers : List ManagerDeclaration → StateM Controller (List ManagerDeclaration)
  | [] => pure []
  | d :: rest => do
    let first ← siftManager d
    let others ← siftManagers rest
    return first ++ others

/-- Keeps what is accepted of a model. -/
def siftModel (m : Model) : StateM Controller Model := do
  let globals ← sift .global m.globals
  let sensors ← sift .sensor m.sensors
  let actuators ← sift .actuator m.actuators
  let internalVariables ← sift .internalVariable m.internalVariables
  let curveIndices ← sift .curveIndex m.curveIndices
  let constructionIndices ← sift .constructionIndex m.constructionIndices
  let trends ← sift .trend m.trends
  let programs ← sift .program m.programs
  let subroutines ← sift .subroutine m.subroutines
  let managers ← siftManagers m.managers
  return {
    globals, sensors, actuators, internalVariables
    curves := m.curves
    curveIndices, constructionIndices, trends, programs, subroutines, managers }

/-- The model without the parts that a controller refuses when it is applied. -/
def accepted (c : Controller) (m : Model) : Model :=
  ((siftModel m).run c).1

/-- A computation takes some steps; what it keeps are those that are accepted, after some that it
    had before. -/
def Sifts (x : StateM Controller α) (before steps : List Declaration)
    (kept : α → List Declaration) : Prop :=
  ∀ c, kept (x.run c).1 = before ++ c.acceptedSteps steps ∧ (x.run c).2 = steps.foldl after c

namespace Sifts

variable {β : Type} {before steps others : List Declaration}

theorem pure {a : α} {kept : α → List Declaration} (h : kept a = before) :
    Sifts (Pure.pure a) before [] kept :=
  fun _ => ⟨h.trans (List.append_nil before).symm, rfl⟩

theorem bind {x : StateM Controller α} {f : α → StateM Controller β}
    {first : α → List Declaration} {kept : β → List Declaration} (hx : Sifts x [] steps first)
    (hf : ∀ a, Sifts (f a) (before ++ first a) others kept) :
    Sifts (x >>= f) before (steps ++ others) kept := by
  intro c
  obtain ⟨hfirst, hnext⟩ := hx c
  obtain ⟨hkept, hlast⟩ := hf (x.run c).1 (x.run c).2
  rw [hnext] at hkept hlast
  rw [hfirst, List.nil_append, List.append_assoc] at hkept
  rw [acceptedSteps_append, List.foldl_append, ← hkept, ← hlast, ← hnext]
  exact ⟨rfl, rfl⟩

end Sifts

theorem tryStep_sifts (d : Declaration) :
    Sifts (tryStep d) [] [d] fun accepted => if accepted then [d] else [] :=
  fun c => ⟨(acceptedSteps_cons c d []).symm, rfl⟩

theorem sift_sifts (step : α → Declaration) (parts : List α) :
    Sifts (sift step parts) [] (parts.map step) (List.map step) := by
  induction parts with
  | nil => exact .pure rfl
  | cons a rest ih =>
    rw [List.map_cons, ← List.singleton_append, ← List.append_nil (List.map step rest)]
    refine (tryStep_sifts (step a)).bind fun accepted => ih.bind fun others => .pure ?_
    cases accepted <;> rfl

theorem siftManager_sifts (d : ManagerDeclaration) :
    Sifts (siftManager d) [] d.steps (List.flatMap ManagerDeclaration.steps) := by
  cases hpoint : CallingPoint.find? d.point with
  | none =>
    have hsteps : d.steps = [.unknownPoint d.point] := by
      rw [ManagerDeclaration.steps, hpoint]
    rw [siftManager, hpoint, hsteps]
    refine (tryStep_sifts (.unknownPoint d.point)).bind fun accepted => .pure ?_
    cases accepted with
    | true => exact (List.flatMap_singleton _ d).trans hsteps
    | false => rfl
  | some point =>
    have hsteps : ∀ programs : List String,
        ({ d with programs } : ManagerDeclaration).steps = programs.map (.bind point) := by
      intro programs
      rw [ManagerDeclaration.steps, hpoint]
    rw [siftManager, hpoint, hsteps d.programs, ← List.append_nil (List.map _ d.programs)]
    refine (sift_sifts (.bind point) d.programs).bind fun programs => .pure ?_
    exact (List.flatMap_singleton _ _).trans (hsteps programs)

theorem siftManagers_sifts (ds : List ManagerDeclaration) :
    Sifts (siftManagers ds) [] (ds.flatMap ManagerDeclaration.steps)
      (List.flatMap ManagerDeclaration.steps) := by
  induction ds with
  | nil => exact .pure rfl
  | cons d rest ih =>
    rw [List.flatMap_cons, ← List.append_nil (rest.flatMap _)]
    exact (siftManager_sifts d).bind fun first => ih.bind fun others => .pure List.flatMap_append

theorem siftModel_sifts (m : Model) : Sifts (siftModel m) [] m.steps Model.steps := by
  rw [← List.append_nil m.steps, Model.steps]
  simp only [List.append_assoc]
  exact (sift_sifts .global m.globals).bind fun _ => (sift_sifts .sensor m.sensors).bind fun _ =>
    (sift_sifts .actuator m.actuators).bind fun _ =>
    (sift_sifts .internalVariable m.internalVariables).bind fun _ =>
    (sift_sifts .curveIndex m.curveIndices).bind fun _ =>
    (sift_sifts .constructionIndex m.constructionIndices).bind fun _ =>
    (sift_sifts .trend m.trends).bind fun _ => (sift_sifts .program m.programs).bind fun _ =>
    (sift_sifts .subroutine m.subroutines).bind fun _ =>
    (siftManagers_sifts m.managers).bind fun _ => .pure rfl

/-- The model without its refused parts has the steps that are not refused. -/
theorem steps_accepted (c : Controller) (m : Model) :
    (c.accepted m).steps = c.acceptedSteps m.steps :=
  (siftModel_sifts m c).1

/-! ## Compiling -/

/-- What compiling finds wrong with the programs. -/
def found (c : Controller) : List ModelProblem :=
  ((compilePrograms c.image.trendCatalog c.image.programCatalog 0 c.image.programs.toList).run
    ⟨c.machine.store, c.machine.log, #[]⟩).1.2

/-- Compiling depends on the report only in what it reports. -/
theorem compile_withReport (c : Controller) (report : ProblemReport) :
    (c.withReport report).compile =
      let problems := report.filter (!·.isFoundByCompiling) ++ c.found
      { c.compile with problems, compiled := problems.isEmpty } :=
  rfl

/-- The report after compiling is that of the declarations, followed by what compiling finds. -/
theorem problems_compile (c : Controller) :
    c.compile.problems = c.problems.filter (!·.isFoundByCompiling) ++ c.found :=
  rfl

theorem verdict_compile (c : Controller) :
    c.compile.verdict = if c.compile.problems = [] then .ok () else .error c.compile.problems := by
  have hcompiled : c.compile.compiled = c.compile.problems.isEmpty := rfl
  rw [verdict, hcompiled]
  simp only [List.isEmpty_iff]

/-- Refused parts of a model are inert.  Without them the model makes the same controller, but for
    the report.  The report is that of earlier declarations, then one problem for each refused
    step in the order of the steps, then what compiling finds; the host is told that all is well
    if it is empty. -/
theorem withModel?_refused_inert (c : Controller) (m : Model) :
    (c.verdicts m.steps).map Prod.fst = m.steps
      ∧ (c.accepted m).steps = ((c.verdicts m.steps).filter (·.2.isNone)).map Prod.fst
      ∧ (c.withModel? m = none → c.withModel? (c.accepted m) = none)
      ∧ ∀ a, c.withModel? m = some a → ∃ b declared,
          c.withModel? (c.accepted m) = some b
          ∧ { a with problems := b.problems, compiled := b.compiled } = b
          ∧ c.declareAll? m.steps = some declared
          ∧ b.problems = c.problems.filter (!·.isFoundByCompiling) ++ declared.found
          ∧ a.problems = c.problems.filter (!·.isFoundByCompiling)
              ++ (c.verdicts m.steps).filterMap Prod.snd ++ declared.found
          ∧ (∀ problem ∈ declared.found, problem.isFoundByCompiling = true)
          ∧ a.verdict = if a.problems = [] then .ok () else .error a.problems := by
  have hsteps := steps_accepted c m
  -- the accepted steps start from the same report, which they do not change
  have hsame : c.declareAll? (c.accepted m).steps
      = (c.declareAll? m.steps).map (·.withReport c.problems) := by
    rw [hsteps]
    exact declareAll?_acceptedSteps m.steps c c.problems
  have happlied : ∀ m : Model, c.withModel? m = (c.declareAll? m.steps).map compile :=
    fun _ => rfl
  refine ⟨map_fst_verdicts c m.steps, hsteps, fun hnone => ?_, fun a ha => ?_⟩
  · rw [happlied, Option.map_eq_none_iff] at hnone
    rw [happlied, hsame, hnone]
    rfl
  · rw [happlied] at ha
    obtain ⟨declared, hdeclared, rfl⟩ := Option.map_eq_some_iff.1 ha
    have hrefusals : ((c.verdicts m.steps).filterMap Prod.snd).filter (!·.isFoundByCompiling)
        = (c.verdicts m.steps).filterMap Prod.snd :=
      List.filter_eq_self.2 fun problem h => by rw [verdicts_problem m.steps c problem h]; rfl
    have hreport := problems_compile declared
    rw [problems_declareAll? m.steps hdeclared, List.filter_append, hrefusals] at hreport
    refine ⟨(declared.withReport c.problems).compile, declared, ?_, ?_, hdeclared, ?_, hreport,
      compilePrograms_problems rfl, verdict_compile declared⟩
    · rw [happlied, hsame, hdeclared]
      rfl
    · rw [compile_withReport]
    · rw [compile_withReport]

/-- A model with a name that is taken, a trend without a source, a program that cannot be compiled,
    a manager at a calling point that does not exist, and one that asks for an unknown program
    before one that there is. -/
def flawed : Model where
  globals := [⟨"demand", .user, some 2.0⟩, ⟨"Demand", .user, none⟩]
  sensors := []
  actuators := []
  internalVariables := []
  curves := []
  curveIndices := []
  constructionIndices := []
  trends := [⟨"recent", "supply", 4⟩]
  programs := [⟨"main", "RUN helper"⟩]
  subroutines := []
  managers := [⟨none, "Never", ["main"]⟩, ⟨none, "BeginNewEnvironment", ["other", "main"]⟩]

theorem withModel?_refused_inert_flawed :
    let c := Controller.ofSettings .default .zero
    let refusals : List ModelProblem :=
      [.duplicateName .variableNames "Demand", .unknownTrendVariable "recent" "supply",
        .unknownCallingPoint "Never", .unknownProgram "other"]
    ∃ a b, c.withModel? flawed = some a
      ∧ c.withModel? { flawed with
          globals := [⟨"demand", .user, some 2.0⟩]
          trends := []
          managers := [⟨none, "BeginNewEnvironment", ["main"]⟩] } = some b
      ∧ { a with problems := b.problems, compiled := b.compiled } = b
      ∧ a.problems = refusals ++ [.unknownSubroutine "main" "helper" 1]
      ∧ b.problems = [.unknownSubroutine "main" "helper" 1]
      ∧ a.verdict = .error a.problems := by
  intro c refusals
  have hmade : c.accepted flawed = { flawed with
        globals := [⟨"demand", .user, some 2.0⟩]
        trends := []
        managers := [⟨none, "BeginNewEnvironment", ["main"]⟩] }
      ∧ (c.verdicts flawed.steps).filterMap Prod.snd = refusals
      ∧ (c.declareAll? flawed.steps).map found = some [.unknownSubroutine "main" "helper" 1] := by
    decide +kernel
  obtain ⟨hkept, hrefusals, hfound⟩ := hmade
  obtain ⟨declared, hdeclared, hfound⟩ := Option.map_eq_some_iff.1 hfound
  have ha : c.withModel? flawed = some declared.compile := by
    show (c.declareAll? flawed.steps).map compile = _
    rw [hdeclared]
    rfl
  obtain ⟨-, -, -, hinert⟩ := withModel?_refused_inert c flawed
  obtain ⟨b, declared', hb, hsame, hagain, hb', ha', -, hverdict⟩ := hinert _ ha
  obtain rfl := Option.some.inj (hdeclared.symm.trans hagain)
  rw [hkept] at hb
  rw [hfound] at hb'
  rw [hfound, hrefusals] at ha'
  refine ⟨_, b, ha, hb, hsame, ha', hb', ?_⟩
  rw [hverdict, if_neg (by rw [ha']; exact List.cons_ne_nil _ _)]

end Controller

end Erl
