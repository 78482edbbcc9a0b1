/-
  Erl.Proofs.Controller.InPlace

  Declarations that are carried out in place.

  A declaration is attempted on a controller, and the controller that a refused attempt had come
  to is dropped.  Here every declaration is carried out step by step on the one controller that
  there is: a step demands something of the controller, or changes it, and what was changed
  before a refusal stays changed.  Both come to the same, because everything that is demanded is
  demanded before the first change.  So a refused declaration leaves nothing behind but its
  problem, and no declaration looks at the problems that others had.
-/

import Mathlib.Data.List.Basic
import Erl.Model.Basic
import Erl.Proofs.Controller.Operation

namespace Erl

namespace Controller

/-- A controller with another report of problems. -/
def withReport (c : Controller) (report : ProblemReport) : Controller :=
  { c with problems := report }

end Controller

/-- A computation on the one controller that there is; a refusal takes nothing back. -/
abbrev InPlace := EStateM ModelProblem Controller

namespace InPlace

open Controller (checkName)

variable {α β : Type}

/-! ## Steps -/

/-- Demands something of the controller and goes on with what it gives. -/
def demand (check : Controller → Except ModelProblem α) : InPlace α := do
  match check (← get) with
  | .ok a => return a
  | .error problem => throw problem

theorem run_demand (check : Controller → Except ModelProblem α) (c : Controller) :
    demand check c =
      match check c with
      | .ok a => .ok a c
      | .error problem => .error problem c := by
  show (match check c with | .ok a => _ | .error problem => _ : InPlace α) c = _
  cases check c <;> rfl

/-- After a value the next computation goes on with the controller as it is then. -/
theorem bind_ok {x : InPlace α} {f : α → InPlace β} {c c' : Controller} {a : α}
    (h : x c = .ok a c') : (x >>= f) c = f a c' := by
  show EStateM.bind x f c = f a c'
  rw [EStateM.bind, h]

/-- After a refusal nothing is done, and nothing is taken back. -/
theorem bind_error {x : InPlace α} {f : α → InPlace β} {c c' : Controller}
    {problem : ModelProblem} (h : x c = .error problem c') :
    (x >>= f) c = .error problem c' := by
  show EStateM.bind x f c = .error problem c'
  rw [EStateM.bind, h]

/-- Records the problem of a refusal. -/
def recorded (x : InPlace α) (c : Controller) : Except ModelProblem α × Controller :=
  match x c with
  | .ok a c' => (.ok a, c')
  | .error problem c' => (.error problem, c'.withReport (c'.problems ++ [problem]))

/-- What is demanded does not depend on the report, and the problem is none that compiling
    finds. -/
structure IsCheck (check : Controller → Except ModelProblem α) : Prop where
  report : ∀ (c : Controller) (report : ProblemReport), check (c.withReport report) = check c
  problem : ∀ c problem, check c = .error problem → problem.isFoundByCompiling = false

namespace IsCheck

theorem always (f : Controller → α) (hf : ∀ c report, f (c.withReport report) = f c) :
    IsCheck fun c => .ok (f c) :=
  ⟨fun c report => congrArg Except.ok (hf c report), fun _ _ h => by cases h⟩

theorem name (entity : Entity) (name : String) : IsCheck fun _ => checkName entity name := by
  refine ⟨fun _ _ => rfl, fun c problem h => ?_⟩
  unfold checkName at h
  split at h <;> cases h
  rfl

/-- Something has to be there. -/
theorem elim {f : Controller → Option α} {missing : ModelProblem}
    (hf : ∀ c report, f (c.withReport report) = f c)
    (hmissing : missing.isFoundByCompiling = false) :
    IsCheck fun c => (f c).elim (.error missing) .ok := by
  refine ⟨fun c report => by rw [hf], fun c problem h => ?_⟩
  cases hfound : f c with
  | none =>
    rw [hfound] at h
    cases h
    exact hmissing
  | some a =>
    rw [hfound] at h
    cases h

end IsCheck

/-- A computation in place does what an attempt does, and is refused when the attempt is, before
    it has changed anything.  The attempt does not depend on the report, and its problem is none
    that compiling finds. -/
structure Attempts (x : InPlace α)
    (attempt : Controller → Except ModelProblem (α × Controller)) : Prop where
  run : ∀ c, x c =
    match attempt c with
    | .ok (a, c') => .ok a c'
    | .error problem => .error problem c
  report : ∀ (c : Controller) (report : ProblemReport), attempt (c.withReport report)
    = (attempt c).map fun r => (r.1, r.2.withReport report)
  problem : ∀ c problem, attempt c = .error problem → problem.isFoundByCompiling = false

namespace Attempts

variable {x : InPlace α} {attempt attempt' : Controller → Except ModelProblem (α × Controller)}

theorem congr (h : x.Attempts attempt) (heq : ∀ c, attempt' c = attempt c) :
    x.Attempts attempt' := by
  rw [show attempt' = attempt from funext heq]
  exact h

/-- What only gives a value is never refused. -/
theorem pure (a : α) : Attempts (Pure.pure a) fun c => .ok (a, c) :=
  ⟨fun _ => rfl, fun _ _ => rfl, fun _ _ h => by cases h⟩

theorem throw {problem : ModelProblem} (h : problem.isFoundByCompiling = false) :
    Attempts (throw problem : InPlace α) fun _ => .error problem :=
  ⟨fun _ => rfl, fun _ _ => rfl, fun _ _ heq => by cases heq; exact h⟩

/-- A demand comes before everything else, so its refusal has changed nothing. -/
theorem demand {check : Controller → Except ModelProblem β} {y : β → InPlace α}
    {next : β → Controller → Except ModelProblem (α × Controller)}
    (hcheck : IsCheck check) (hy : ∀ b, (y b).Attempts (next b)) :
    Attempts (InPlace.demand check >>= y) fun c => check c >>= fun b => next b c := by
  refine ⟨fun c => ?_, fun c report => ?_, fun c problem h => ?_⟩
  · have hrun := run_demand check c
    cases h : check c with
    | ok b =>
      rw [h] at hrun
      rw [bind_ok hrun]
      exact (hy b).run c
    | error problem =>
      rw [h] at hrun
      exact bind_error hrun
  · rw [hcheck.report]
    cases check c with
    | ok b => exact (hy b).report c report
    | error problem => rfl
  · cases hdemand : check c with
    | ok b =>
      rw [hdemand] at h
      exact (hy b).problem c problem h
    | error problem' =>
      rw [hdemand] at h
      cases h
      exact hcheck.problem c problem hdemand

/-- A change that demands nothing is not refused. -/
theorem change {f : Controller → α × Controller}
    (hf : ∀ c report, f (c.withReport report) = ((f c).1, (f c).2.withReport report)) :
    Attempts (modifyGet f) fun c => .ok (f c) :=
  ⟨fun _ => rfl, fun c report => congrArg Except.ok (hf c report), fun _ _ h => by cases h⟩

/-- A change may follow that demands nothing. -/
theorem andThen (h : x.Attempts attempt) {f : α → Controller → β × Controller}
    (hf : ∀ a c report,
      f a (c.withReport report) = ((f a c).1, (f a c).2.withReport report)) :
    Attempts (x >>= fun a => modifyGet (f a)) fun c => (attempt c).map fun r => f r.1 r.2 := by
  refine ⟨fun c => ?_, fun c report => ?_, fun c problem hproblem => ?_⟩
  · have hrun := h.run c
    cases hattempt : attempt c with
    | ok r =>
      rw [hattempt] at hrun
      rw [bind_ok hrun]
      rfl
    | error problem =>
      rw [hattempt] at hrun
      exact bind_error hrun
  · rw [h.report c report]
    cases attempt c with
    | ok r => exact congrArg Except.ok (hf r.1 r.2 report)
    | error problem => rfl
  · cases hattempt : attempt c with
    | ok r =>
      rw [hattempt] at hproblem
      cases hproblem
    | error problem' =>
      rw [hattempt] at hproblem
      cases hproblem
      exact h.problem c problem hattempt

end Attempts

/-- An operation of the controller is carried out in place, unless there cannot be room for what
    it would add. -/
def Performs (x : InPlace α)
    (operation? : Controller → Option (Except ModelProblem α × Controller)) : Prop :=
  ∃ (attempt : Controller → Except ModelProblem (α × Controller)) (full : Controller → Bool),
    x.Attempts attempt ∧ (∀ c report, full (c.withReport report) = full c)
      ∧ ∀ c, operation? c = bif full c then none else some (c.orRecord (attempt c))

theorem Attempts.performs {x : InPlace α}
    {attempt : Controller → Except ModelProblem (α × Controller)} (h : x.Attempts attempt)
    {operation : Controller → Except ModelProblem α × Controller}
    (heq : ∀ c, operation c = c.orRecord (attempt c)) : x.Performs fun c => some (operation c) :=
  ⟨attempt, fun _ => false, h, fun _ _ => rfl, fun c => congrArg some (heq c)⟩

/-! ## Variables -/

/-- Adds a global with a new name. -/
def addVariable (name : String) (origin : Origin) : InPlace VariableId := do
  demand fun c =>
    match c.machine.store.global? name with
    | some _ => .error (.duplicateName .variableNames name)
    | none => .ok ()
  modifyGet fun c =>
    (c.machine.store.size, c.withStore (c.machine.store.push name .global origin))

theorem addVariable_attempts (name : String) (origin : Origin) :
    (addVariable name origin).Attempts fun c => c.attemptVariable name origin := by
  have hcheck : IsCheck fun c => (match c.machine.store.global? name with
      | some _ => .error (.duplicateName .variableNames name)
      | none => .ok () : Except ModelProblem Unit) := by
    refine ⟨fun _ _ => rfl, fun c problem h => ?_⟩
    split at h <;> cases h
    rfl
  refine (Attempts.demand hcheck fun _ => .change fun _ _ => rfl).congr fun c => ?_
  unfold Controller.attemptVariable
  cases hfound : c.machine.store.global? name with
  | some existing =>
    rw [Store.addGlobal_of_some hfound]
    rfl
  | none =>
    rw [Store.addGlobal_of_none hfound]
    rfl

/-- Adds a global and lets it hold a number. -/
def addConstant (name : String) (origin : Origin) (x : Float) : InPlace VariableId := do
  let id ← addVariable name origin
  modifyGet fun c => (id, c.withStore (c.machine.store.set id (.number x)))

theorem addConstant_attempts (name : String) (origin : Origin) (x : Float) :
    (addConstant name origin x).Attempts fun c => c.attemptConstant name origin x := by
  refine ((addVariable_attempts name origin).andThen fun _ _ _ => rfl).congr fun c => ?_
  unfold Controller.attemptConstant
  cases c.attemptVariable name origin <;> rfl

/-- Declares a global. -/
def addGlobal (name : String) (origin : Origin) : InPlace VariableId := do
  demand fun _ => checkName .globalVariable name
  addVariable name origin

theorem addGlobal_performs (name : String) (origin : Origin) :
    (addGlobal name origin).Performs fun c => some (c.addGlobal name origin) :=
  (Attempts.demand (.name _ name) fun _ => addVariable_attempts name origin).performs
    fun _ => rfl

/-- Declares a global that holds the index of something that has to exist. -/
def addIndex (entity : Entity) (origin : Origin) (name : String)
    (index? : Controller → Option Nat) (missing : ModelProblem) : InPlace VariableId := do
  demand fun _ => checkName entity name
  let index ← demand fun c => (index? c).elim (.error missing) .ok
  addConstant name origin (Float.ofNat index)

theorem addIndex_attempts (entity : Entity) (origin : Origin) (name : String)
    {index? : Controller → Option Nat} {missing : ModelProblem}
    (hindex : ∀ c report, index? (Controller.withReport c report) = index? c)
    (hmissing : missing.isFoundByCompiling = false) :
    (addIndex entity origin name index? missing).Attempts fun c => (do
      checkName entity name
      match index? c with
      | none => throw missing
      | some index => c.attemptConstant name origin (Float.ofNat index)) := by
  refine (Attempts.demand (.name _ name) fun _ => .demand (.elim hindex hmissing) fun index =>
    addConstant_attempts name origin (Float.ofNat index)).congr fun c => ?_
  cases index? c <;> rfl

/-- Declares a global that holds the index of a curve. -/
def declareCurveIndex (name curve : String) : InPlace VariableId :=
  addIndex .curveIndexVariable .curveIndex name (·.image.curves.index? curve)
    (.curveNotFound curve)

theorem declareCurveIndex_performs (name curve : String) :
    (declareCurveIndex name curve).Performs fun c => some (c.declareCurveIndex name curve) :=
  (addIndex_attempts _ _ _ (fun _ _ => rfl) rfl).performs fun _ => rfl

/-- Declares a global that holds the index of a construction. -/
def declareConstructionIndex (name construction : String) : InPlace VariableId :=
  addIndex .constructionIndexVariable .constructionIndex name
    (·.constructionIndex? construction) (.constructionNotFound construction)

theorem declareConstructionIndex_performs (name construction : String) :
    (declareConstructionIndex name construction).Performs
      fun c => some (c.declareConstructionIndex name construction) :=
  (addIndex_attempts _ _ _ (fun _ _ => rfl) rfl).performs fun _ => rfl

/-! ## Exchange -/

/-- Ties a new variable to a controlled point. -/
def addActuator (name : String) (available : Nat) : InPlace VariableId := do
  let id ← addVariable name .actuator
  modifyGet fun c =>
    let (actuator, exchange) := c.exchange.tieActuator ⟨name, id, available⟩
    (id, { c.withStore (c.machine.store.linkActuator id actuator) with exchange })

theorem addActuator_attempts (name : String) (available : Nat) :
    (addActuator name available).Attempts fun c => c.attemptActuator name available := by
  refine ((addVariable_attempts name .actuator).andThen fun _ _ _ => rfl).congr fun c => ?_
  unfold Controller.attemptActuator
  cases c.attemptVariable name .actuator <;> rfl

/-- Ties a global to a controlled point, which must not be used under another name. -/
def attachActuator (name componentType uniqueName controlType : String) : InPlace VariableId := do
  demand fun _ => checkName .actuator name
  let available ← demand fun c =>
    (c.exchange.findPoint? componentType uniqueName controlType).elim
      (.error (.actuatorNotFound componentType uniqueName controlType)) .ok
  let used ← demand fun c =>
    .ok ((c.exchange.actuatorOf? available).bind (c.exchange.actuators[·]?))
  match used with
  | none => addActuator name available
  | some used =>
    if Text.sameName used.name name then return used.target
    else throw (.actuatorNameConflict used.name name)

theorem attachActuator_performs (name componentType uniqueName controlType : String) :
    (attachActuator name componentType uniqueName controlType).Performs
      fun c => some (c.attachActuator name componentType uniqueName controlType) := by
  have hused : ∀ (available : Nat) (used : Option Tie),
      Attempts (match used with
        | none => addActuator name available
        | some used =>
          if Text.sameName used.name name then return used.target
          else throw (.actuatorNameConflict used.name name)) fun c =>
        (match used with
        | none => c.attemptActuator name available
        | some used =>
          if Text.sameName used.name name then .ok (used.target, c)
          else .error (.actuatorNameConflict used.name name)) := by
    intro available used
    cases used with
    | none => exact addActuator_attempts name available
    | some used =>
      dsimp only
      split
      · exact .pure used.target
      · exact .throw rfl
  refine (Attempts.demand (.name _ name) fun _ => .demand (.elim (fun _ _ => rfl) rfl)
    fun available => .demand (.always _ fun _ _ => rfl) (hused available)).performs
    fun c => congrArg c.orRecord ?_
  cases c.exchange.findPoint? componentType uniqueName controlType <;> rfl

/-- Ties a global to something published; a variable that is tied to it already is returned as it
    is. -/
def attachSource (entity : Entity) (origin : Origin) (name : String)
    (find? : Controller → Option Nat) (missing : ModelProblem)
    (tied? : Controller → Nat → Option VariableId) (tie : Exchange → Tie → Nat × Exchange) :
    InPlace VariableId := do
  demand fun _ => checkName entity name
  let available ← demand fun c => (find? c).elim (.error missing) .ok
  let tied ← demand fun c => .ok (tied? c available)
  match tied with
  | some id => return id
  | none =>
    let id ← addVariable name origin
    modifyGet fun c => (id, { c with exchange := (tie c.exchange ⟨name, id, available⟩).2 })

theorem attachSource_attempts (entity : Entity) (origin : Origin) (name : String)
    {find? : Controller → Option Nat} {missing : ModelProblem}
    {tied? : Controller → Nat → Option VariableId} (tie : Exchange → Tie → Nat × Exchange)
    (hfind : ∀ c report, find? (Controller.withReport c report) = find? c)
    (hmissing : missing.isFoundByCompiling = false)
    (htied : ∀ c report, tied? (Controller.withReport c report) = tied? c) :
    (attachSource entity origin name find? missing tied? tie).Attempts fun c => (do
      checkName entity name
      match find? c with
      | none => throw missing
      | some available =>
        match tied? c available with
        | some id => return (id, c)
        | none =>
          let (id, c) ← c.attemptVariable name origin
          return (id, { c with exchange := (tie c.exchange ⟨name, id, available⟩).2 })) := by
  have hnew : ∀ (available : Nat) (tied : Option VariableId),
      Attempts (match tied with
        | some id => return id
        | none => do
          let id ← addVariable name origin
          modifyGet fun c =>
            (id, { c with exchange := (tie c.exchange ⟨name, id, available⟩).2 })) fun c =>
        (match tied with
        | some id => .ok (id, c)
        | none => do
          let (id, c) ← c.attemptVariable name origin
          return (id, { c with exchange := (tie c.exchange ⟨name, id, available⟩).2 })) := by
    intro available tied
    cases tied with
    | some id => exact .pure id
    | none =>
      refine ((addVariable_attempts name origin).andThen fun _ _ _ => rfl).congr fun c => ?_
      cases c.attemptVariable name origin <;> rfl
  refine (Attempts.demand (.name _ name) fun _ => .demand (.elim hfind hmissing) fun available =>
    .demand (.always _ fun c report => ?_) (hnew available)).congr fun c => ?_
  · rw [htied]
  · cases find? c <;> rfl

/-- Ties a global to an output. -/
def attachSensor (name quantity key : String) : InPlace VariableId :=
  attachSource .sensor .sensor name (·.exchange.findOutput? quantity key)
    (.sensorNotFound quantity key) (fun c => c.tiedGlobal? c.exchange.sensors name)
    Exchange.tieSensor

theorem attachSensor_performs (name quantity key : String) :
    (attachSensor name quantity key).Performs fun c => some (c.attachSensor name quantity key) :=
  (attachSource_attempts _ _ _ _ (fun _ _ => rfl) rfl fun _ _ => rfl).performs fun _ => rfl

/-- Ties a global to an internal variable of the host. -/
def attachInternalVariable (name quantity key : String) : InPlace VariableId :=
  attachSource .internalVariable .internalVariable name (·.exchange.findInternal? quantity key)
    (.internalVariableNotFound quantity key)
    (fun c => c.tiedGlobal? c.exchange.internalVariables name) Exchange.tieInternal

theorem attachInternalVariable_performs (name quantity key : String) :
    (attachInternalVariable name quantity key).Performs
      fun c => some (c.attachInternalVariable name quantity key) :=
  (attachSource_attempts _ _ _ _ (fun _ _ => rfl) rfl fun _ _ => rfl).performs fun _ => rfl

/-! ## Trends and programs -/

/-- Attaches a history to a global. -/
def addTrend (name variableName : String) (capacity : Nat) : InPlace TrendId := do
  let source ← demand fun c => c.trendSource name variableName capacity
  modifyGet fun c => (c.image.trends.size,
    { c with image := { c.image with
      trendCatalog := (c.image.trendCatalog.enter ⟨name, source, .empty capacity⟩).2 } })

theorem trendSource_isCheck (name variableName : String) (capacity : Nat) :
    IsCheck fun c => c.trendSource name variableName capacity := by
  refine ⟨fun _ _ => rfl, fun c problem h => ?_⟩
  unfold Controller.trendSource at h
  cases hname : checkName .trend name with
  | error problem' =>
    rw [hname] at h
    cases h
    exact (IsCheck.name .trend name).problem c problem hname
  | ok _ =>
    rw [hname] at h
    dsimp only [bind, Except.bind] at h
    split at h
    · cases h
      rfl
    · dsimp only [pure, Except.pure] at h
      split at h
      · cases h
        rfl
      · split at h <;> cases h
        rfl

theorem addTrend_performs (name variableName : String) (capacity : Nat) :
    (addTrend name variableName capacity).Performs
      fun c => c.declareTrend? name variableName capacity := by
  refine ⟨_, fun c => (c.trendSource name variableName capacity).isOk
      && decide (History.maxCapacity < capacity),
    .demand (trendSource_isCheck name variableName capacity) fun source => .change fun _ _ => rfl,
    fun _ _ => rfl, fun c => ?_⟩
  unfold Controller.declareTrend? History.ofCapacity?
  dsimp only
  cases c.trendSource name variableName capacity with
  | error problem => rfl
  | ok source =>
    by_cases hroom : capacity ≤ History.maxCapacity
    · rw [if_pos hroom, decide_eq_false (Nat.not_lt.2 hroom)]
      rfl
    · rw [if_neg hroom, decide_eq_true (Nat.lt_of_not_le hroom)]
      rfl

/-- Adds a program or subroutine with a new name. -/
def addProgram (entity : Entity) (kind : ProgramKind) (name source : String) :
    InPlace ProgramId := do
  demand fun _ =>
    match NameFlaw.ofProgram? name with
    | some flaw => .error (.invalidName entity name flaw)
    | none => .ok ()
  demand fun c =>
    if (c.image.findProgram? name).isSome then .error (.duplicateName .programNames name)
    else .ok ()
  modifyGet fun c => (c.image.programs.size,
    { c with
      image := { c.image with
        programCatalog := (c.image.programCatalog.enter ⟨name, kind, source, #[]⟩).2 }
      compiled := false })

theorem addProgram_attempts (entity : Entity) (kind : ProgramKind) (name source : String) :
    (addProgram entity kind name source).Attempts
      fun c => c.attemptProgram entity kind name source := by
  have hname : IsCheck fun _ => (match NameFlaw.ofProgram? name with
      | some flaw => .error (.invalidName entity name flaw)
      | none => .ok () : Except ModelProblem Unit) := by
    refine ⟨fun _ _ => rfl, fun c problem h => ?_⟩
    split at h <;> cases h
    rfl
  have hnew : IsCheck fun c =>
      (if (c.image.findProgram? name).isSome then .error (.duplicateName .programNames name)
      else .ok () : Except ModelProblem Unit) := by
    refine ⟨fun _ _ => rfl, fun c problem h => ?_⟩
    split at h <;> cases h
    rfl
  refine (Attempts.demand hname fun _ => .demand hnew fun _ =>
    .change fun _ _ => rfl).congr fun c => ?_
  unfold Controller.attemptProgram
  cases NameFlaw.ofProgram? name with
  | some flaw => rfl
  | none =>
    dsimp only
    split <;> rfl

/-- Lets a program run at a calling point. -/
def bindProgram (point : CallingPoint) (name : String) : InPlace Unit := do
  let id ← demand fun c =>
    match c.image.findProgram? name with
    | none => .error (.unknownProgram name)
    | some id =>
      match (c.image.programs[id]?).map Program.kind with
      | some .main => .ok id
      | _ => .error (.subroutineAtCallingPoint name)
  modifyGet fun c => ((), { c with schedule := c.schedule.bind point id })

theorem bindProgram_attempts (point : CallingPoint) (name : String) :
    (bindProgram point name).Attempts fun c => c.attemptBind point name := by
  have hmain : IsCheck fun c => (match c.image.findProgram? name with
      | none => .error (.unknownProgram name)
      | some id =>
        match (c.image.programs[id]?).map Program.kind with
        | some .main => .ok id
        | _ => .error (.subroutineAtCallingPoint name) : Except ModelProblem ProgramId) := by
    refine ⟨fun _ _ => rfl, fun c problem h => ?_⟩
    split at h
    · cases h
      rfl
    · split at h <;> cases h
      rfl
  refine (Attempts.demand hmain fun id => .change fun _ _ => rfl).congr fun c => ?_
  unfold Controller.attemptBind
  cases c.image.findProgram? name with
  | none => rfl
  | some id =>
    dsimp only
    cases (c.image.programs[id]?).map Program.kind with
    | none => rfl
    | some kind => cases kind <;> rfl

end InPlace

/-! ## Refusals -/

namespace Controller

variable {α : Type}

/-- The answer of a declaration is that of carrying it out in place.  A refusal leaves the
    controller as it was and its problem at the end of the report; otherwise the report is left
    as it was. -/
structure IsAtomic (c : Controller) (x : InPlace α) (answer : Except ModelProblem α × Controller) :
    Prop where
  inPlace : answer = x.recorded c
  refused : ∀ problem, answer.1 = .error problem →
    answer.2 = { c with problems := c.problems ++ [problem] }
  accepted : ∀ a, answer.1 = .ok a → answer.2.problems = c.problems

theorem orRecord_isAtomic {x : InPlace α}
    {attempt : Controller → Except ModelProblem (α × Controller)} (h : x.Attempts attempt)
    (c : Controller) : c.IsAtomic x (c.orRecord (attempt c)) := by
  have hrun := h.run c
  have hreport := h.report c c.problems
  cases hattempt : attempt c with
  | ok r =>
    rw [hattempt] at hrun hreport
    refine ⟨?_, fun problem hproblem => (by cases hproblem), fun a _ => ?_⟩
    · rw [InPlace.recorded, hrun]
      rfl
    · -- the attempt with the report that there is comes with that report
      have hsame : attempt (c.withReport c.problems) = .ok r := hattempt
      rw [hsame] at hreport
      exact congrArg (fun r : α × Controller => r.2.problems) (Except.ok.inj hreport)
  | error problem =>
    rw [hattempt] at hrun
    refine ⟨?_, fun problem' hproblem => ?_, fun a ha => (by cases ha)⟩
    · rw [InPlace.recorded, hrun]
      rfl
    · cases hproblem
      rfl

theorem isAtomic_of_performs {x : InPlace α}
    {operation? : Controller → Option (Except ModelProblem α × Controller)}
    (h : x.Performs operation?) {c : Controller} {answer : Except ModelProblem α × Controller}
    (hanswer : operation? c = some answer) : c.IsAtomic x answer := by
  obtain ⟨attempt, full, hattempts, -, heq⟩ := h
  rw [heq] at hanswer
  cases hfull : full c with
  | true =>
    rw [hfull] at hanswer
    cases hanswer
  | false =>
    rw [hfull] at hanswer
    cases hanswer
    exact orRecord_isAtomic hattempts c

/-- Every declaration is atomic, although it is carried out in place: when it is refused, all
    that is left of it is one problem at the end of the report, and when it is accepted, the
    report stays as it is. -/
theorem declarations_atomic (c : Controller) :
    (∀ name origin, c.IsAtomic (.addGlobal name origin) (c.addGlobal name origin))
      ∧ (∀ name curve,
          c.IsAtomic (.declareCurveIndex name curve) (c.declareCurveIndex name curve))
      ∧ (∀ name construction, c.IsAtomic (.declareConstructionIndex name construction)
          (c.declareConstructionIndex name construction))
      ∧ (∀ name source,
          c.IsAtomic (.addProgram .program .main name source) (c.addProgram name source))
      ∧ (∀ name source, c.IsAtomic (.addProgram .subroutine .subroutine name source)
          (c.addSubroutine name source))
      ∧ (∀ point name, c.IsAtomic (.bindProgram point name) (c.bindProgram point name))
      ∧ (∀ name componentType uniqueName controlType,
          c.IsAtomic (.attachActuator name componentType uniqueName controlType)
            (c.attachActuator name componentType uniqueName controlType))
      ∧ (∀ name quantity key,
          c.IsAtomic (.attachSensor name quantity key) (c.attachSensor name quantity key))
      ∧ (∀ name quantity key, c.IsAtomic (.attachInternalVariable name quantity key)
          (c.attachInternalVariable name quantity key))
      ∧ ∀ name variableName capacity answer,
          c.declareTrend? name variableName capacity = some answer →
            c.IsAtomic (.addTrend name variableName capacity) answer := by
  refine ⟨?_, ?_, ?_, ?_, ?_, ?_, ?_, ?_, ?_, ?_⟩
  · intro name origin
    exact isAtomic_of_performs (InPlace.addGlobal_performs name origin) rfl
  · intro name curve
    exact isAtomic_of_performs (InPlace.declareCurveIndex_performs name curve) rfl
  · intro name construction
    exact isAtomic_of_performs (InPlace.declareConstructionIndex_performs name construction) rfl
  · intro name source
    exact orRecord_isAtomic (InPlace.addProgram_attempts .program .main name source) c
  · intro name source
    exact orRecord_isAtomic (InPlace.addProgram_attempts .subroutine .subroutine name source) c
  · intro point name
    exact orRecord_isAtomic (InPlace.bindProgram_attempts point name) c
  · intro name componentType uniqueName controlType
    exact isAtomic_of_performs
      (InPlace.attachActuator_performs name componentType uniqueName controlType) rfl
  · intro name quantity key
    exact isAtomic_of_performs (InPlace.attachSensor_performs name quantity key) rfl
  · intro name quantity key
    exact isAtomic_of_performs (InPlace.attachInternalVariable_performs name quantity key) rfl
  · intro name variableName capacity answer hanswer
    exact isAtomic_of_performs (InPlace.addTrend_performs name variableName capacity) hanswer

/-- A trend of a global that does not exist is refused, and nothing is left of it but that. -/
theorem declarations_atomic_unknownSource :
    let c := Controller.ofSettings .default .zero
    ∃ answer, c.declareTrend? "Recent" "Demand" 24 = some answer
      ∧ answer.1 = .error (.unknownTrendVariable "Recent" "Demand")
      ∧ c.IsAtomic (.addTrend "Recent" "Demand" 24) answer := by
  intro c
  have hsource : c.trendSource "Recent" "Demand" 24
      = .error (.unknownTrendVariable "Recent" "Demand") := by
    decide +kernel
  have hanswer : c.declareTrend? "Recent" "Demand" 24
      = some (c.orRecord (.error (.unknownTrendVariable "Recent" "Demand"))) := by
    rw [declareTrend?, hsource]
  obtain ⟨-, -, -, -, -, -, -, -, -, htrend⟩ := declarations_atomic c
  exact ⟨_, hanswer, rfl, htrend _ _ _ _ hanswer⟩

end Controller

end Erl
