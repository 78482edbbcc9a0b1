/-
  Erl.Proofs.Controller.Operation

  What a host can do with a controller, and what that does to the controller.

  A host starts with a controller without a model and uses its operations in any order.  There
  are many operations but few effects: `Effect` lists them with all that is known when they
  happen, and `Does.effect` says that there are no others.  Every invariant is proved by going
  through the effects.
-/

import Mathlib.Logic.Relation
import Erl.Controller.Run
import Erl.Model.Basic
import Erl.Proofs.Store

namespace Erl

namespace Controller

/-- An operation of the host on a controller. -/
inductive Does (c : Controller) : Controller → Prop where
  | installRoutines (routines : Routines) : Does c (c.installRoutines routines)
  | installCurves (curves : CurveEvaluator) : Does c (c.installCurves curves)
  | addCell (cell : Cell) : Does c (c.addCell cell).2
  | assignCell (id : CellId) (x : Float) : Does c (c.assignCell id x)
  | publishPoint (p : ControlPoint) : Does c (c.publishPoint p).2
  | publishOutput (p : SourcePoint) : Does c (c.publishOutput p)
  | publishInternal (p : SourcePoint) : Does c (c.publishInternal p)
  | publishConstruction (name : String) : Does c (c.publishConstruction name).2
  | updateClock (clock : Clock) : Does c (c.updateClock clock)
  | writeGlobal {name : String} {v : Value} {c' : Controller} :
      c.writeGlobal name v = .ok c' → Does c c'
  | addGlobal (name : String) (origin : Origin) : Does c (c.addGlobal name origin).2
  /-- A step of applying a model: a global that starts with a number. -/
  | declareInitial (d : GlobalDeclaration) : Does c (c.declareInitial d).2
  | declareCurveIndex (name curve : String) : Does c (c.declareCurveIndex name curve).2
  | declareConstructionIndex (name construction : String) :
      Does c (c.declareConstructionIndex name construction).2
  | attachActuator (name componentType uniqueName controlType : String) :
      Does c (c.attachActuator name componentType uniqueName controlType).2
  | attachSensor (name quantity key : String) : Does c (c.attachSensor name quantity key).2
  | attachInternalVariable (name quantity key : String) :
      Does c (c.attachInternalVariable name quantity key).2
  | declareTrend {name variableName : String} {capacity : Nat}
      {r : Except ModelProblem TrendId × Controller} :
      c.declareTrend? name variableName capacity = some r → Does c r.2
  | addProgram (name source : String) : Does c (c.addProgram name source).2
  | addSubroutine (name source : String) : Does c (c.addSubroutine name source).2
  | bindProgram (point : CallingPoint) (name : String) : Does c (c.bindProgram point name).2
  /-- A step of applying a model: a manager at a calling point that does not exist. -/
  | refusePoint (name : String) :
      Does c { c with problems := c.problems ++ [.unknownCallingPoint name] }
  | compile : Does c c.compile
  | run (point : CallingPoint) : Does c (c.run point).2

/-- What a host can make of a controller without a model. -/
inductive Reachable : Controller → Prop where
  | ofSettings (settings : Settings) (stream : RandomStream) :
      Reachable (ofSettings settings stream)
  | does {c c' : Controller} : Reachable c → Does c c' → Reachable c'

/-- What a host can make of a controller. -/
def Later : Controller → Controller → Prop :=
  Relation.ReflTransGen Does

theorem Reachable.later {c c' : Controller} (h : Reachable c) (hlater : Later c c') :
    Reachable c' := by
  induction hlater with
  | refl => exact h
  | tail _ hdoes ih => exact ih.does hdoes

/-! ## Applying a model -/

/-- Each step of applying a model is an operation. -/
theorem declare?_does {c : Controller} {d : Declaration}
    {r : Except ModelProblem Unit × Controller} (h : c.declare? d = some r) : Does c r.2 := by
  cases d with
  | trend d =>
    obtain ⟨r', htrend, rfl⟩ := Option.map_eq_some_iff.1 h
    exact .declareTrend htrend
  | global d =>
    cases h
    exact .declareInitial d
  | sensor d =>
    cases h
    exact .attachSensor d.name d.quantity d.key
  | actuator d =>
    cases h
    exact .attachActuator d.name d.componentType d.uniqueName d.controlType
  | internalVariable d =>
    cases h
    exact .attachInternalVariable d.name d.quantity d.key
  | curveIndex d =>
    cases h
    exact .declareCurveIndex d.name d.subject
  | constructionIndex d =>
    cases h
    exact .declareConstructionIndex d.name d.subject
  | program d =>
    cases h
    exact .addProgram d.name d.source
  | subroutine d =>
    cases h
    exact .addSubroutine d.name d.source
  | unknownPoint name =>
    cases h
    exact .refusePoint name
  | bind point program =>
    cases h
    exact .bindProgram point program

end Controller

/-! ## Effects -/

namespace Exchange

/-- What publishing something new makes of the catalogs. -/
inductive Publishes (b : Exchange) : Exchange → Prop where
  | point {p : ControlPoint} : b.pointCatalog.find? p.foldedKey = none →
      Publishes b { b with pointCatalog := b.pointCatalog.push p }
  | output {p : SourcePoint} : b.outputCatalog.find? p.foldedKey = none →
      Publishes b { b with outputCatalog := b.outputCatalog.push p }
  | internal {p : SourcePoint} : b.internalCatalog.find? p.foldedKey = none →
      Publishes b { b with internalCatalog := b.internalCatalog.push p }

/-- What declaring a variable of an origin makes of the catalogs: it may be tied to something
    published, and to a controlled point only if that is not used yet.  A variable that is tied to
    a controlled point, and no other, drives an actuator, which is the new one. -/
inductive Ties (b : Exchange) (id : VariableId) : Origin → Option Nat → Exchange → Prop where
  | none {origin : Origin} : Ties b id origin Option.none b
  | actuator (name : String) {available : Nat} : available < b.points.size →
      b.actuatorOf? available = Option.none →
      Ties b id .actuator (some b.actuators.size)
        { b with actuatorCatalog := b.actuatorCatalog.push ⟨name, id, available⟩ }
  | sensor (name : String) {available : Nat} : available < b.outputs.size →
      Ties b id .sensor Option.none
        { b with sensorCatalog := b.sensorCatalog.push ⟨name, id, available⟩ }
  | internalVariable (name : String) {available : Nat} : available < b.internals.size →
      Ties b id .internalVariable Option.none
        { b with
          internalVariableCatalog := b.internalVariableCatalog.push ⟨name, id, available⟩ }

/-- Declaring a variable publishes nothing. -/
theorem Ties.published {b b' : Exchange} {id : VariableId} {origin : Origin} {link : Option Nat}
    (h : b.Ties id origin link b') :
    b'.points = b.points ∧ b'.outputs = b.outputs ∧ b'.internals = b.internals := by
  cases h <;> exact ⟨rfl, rfl, rfl⟩

/-- A controlled point without an actuator is not used. -/
theorem actuatorOf?_eq_none {b : Exchange} {available : Nat}
    (h : (b.actuatorOf? available).bind (b.actuators[·]?) = none) :
    b.actuatorOf? available = none := by
  cases hfind : b.actuatorOf? available with
  | none => rfl
  | some i =>
    obtain ⟨tie, htie, -⟩ := Catalog.exists_of_find? hfind
    rw [hfind, Option.bind_some, htie] at h
    cases h

theorem tieSensor_ties (b : Exchange) (name : String) (id : VariableId) {available : Nat}
    (h : available < b.outputs.size) :
    b.Ties id .sensor Option.none (b.tieSensor ⟨name, id, available⟩).2 := by
  unfold tieSensor
  rcases b.sensorCatalog.enter_cases ⟨name, id, available⟩ with ⟨i, -, hfound⟩ | ⟨-, hnew⟩
  · rw [hfound]
    exact .none
  · rw [hnew]
    exact .sensor name h

theorem tieInternal_ties (b : Exchange) (name : String) (id : VariableId) {available : Nat}
    (h : available < b.internals.size) :
    b.Ties id .internalVariable Option.none (b.tieInternal ⟨name, id, available⟩).2 := by
  unfold tieInternal
  rcases b.internalVariableCatalog.enter_cases ⟨name, id, available⟩ with
    ⟨i, -, hfound⟩ | ⟨-, hnew⟩
  · rw [hfound]
    exact .none
  · rw [hnew]
    exact .internalVariable name h

end Exchange

namespace Controller

/-- The kinds of operations: something is published, a calling point runs, or anything else. -/
inductive Deed where
  | prepare
  | publish
  | run

/-- What an operation of a kind does to a controller. -/
inductive Effect (c : Controller) : Deed → Controller → Prop where
  /-- The host changes what is its own, or nothing happens. -/
  | host (routines : Routines) (curves : CurveEvaluator) (cells : Cells)
      (constructions : Array String) :
      Effect c .prepare
        { c with image := { c.image with routines, curves }, cells, constructions }
  | publish {b : Exchange} : c.exchange.Publishes b → Effect c .publish { c with exchange := b }
  | refuse (problem : ModelProblem) :
      Effect c .prepare { c with problems := c.problems ++ [problem] }
  | addVariable {x : Variable} {b : Exchange} : x.scope = .global →
      c.machine.store.global? x.name = none →
      c.exchange.Ties c.machine.store.size x.origin x.actuator b →
      Effect c .prepare { c.withStore (c.machine.store.add x) with exchange := b }
  /-- The host assigns a variable that is not read-only. -/
  | assign {id : VariableId} (v : Value) : c.machine.store.isProtected id = false →
      Effect c .prepare (c.withStore (c.machine.store.set id v))
  | updateClock (clock : Clock) : Effect c .prepare (c.updateClock clock)
  | addTrend {t : Trend} : c.image.findTrend? t.name = none →
      Effect c .prepare { c with
        image := { c.image with trendCatalog := c.image.trendCatalog.push t } }
  /-- A program that is added has no lines yet. -/
  | addProgram {p : Program} : c.image.findProgram? p.name = none → p.lines = #[] →
      Effect c .prepare { c with
        image := { c.image with programCatalog := c.image.programCatalog.push p }
        compiled := false }
  | bind (point : CallingPoint) {id : ProgramId} :
      (c.image.programs[id]?).map Program.kind = some .main →
      Effect c .prepare { c with schedule := c.schedule.bind point id }
  | compile : Effect c .prepare c.compile
  | run (point : CallingPoint) : Effect c .run (c.run point).2

variable {c c' : Controller}

theorem Effect.idle (c : Controller) : Effect c .prepare c :=
  .host c.image.routines c.image.curves c.cells c.constructions

/-- An attempt that is refused records a problem. -/
theorem orRecord_effect {α : Type} {attempt : Except ModelProblem (α × Controller)}
    (h : ∀ a c', attempt = .ok (a, c') → Effect c .prepare c') :
    Effect c .prepare (c.orRecord attempt).2 := by
  cases attempt with
  | error problem => exact .refuse problem
  | ok r => exact h r.1 r.2 rfl

theorem attempt_bind {α β : Type} {x : Except ModelProblem α} {f : α → Except ModelProblem β}
    {b : β} (h : x >>= f = .ok b) : ∃ a, x = .ok a ∧ f a = .ok b := by
  cases x with
  | error problem => cases h
  | ok a => exact ⟨a, rfl, h⟩

/-- A new global has a new name and stands behind all other variables. -/
theorem attemptVariable_ok {name : String} {origin : Origin} {r : VariableId × Controller}
    (h : c.attemptVariable name origin = .ok r) :
    c.machine.store.global? name = none
      ∧ r = (c.machine.store.size, c.withStore (c.machine.store.push name .global origin)) := by
  unfold attemptVariable at h
  cases hname : c.machine.store.global? name with
  | some existing =>
    rw [Store.addGlobal_of_some hname] at h
    cases h
  | none =>
    rw [Store.addGlobal_of_none hname] at h
    cases h
    exact ⟨rfl, rfl⟩

theorem attemptVariable_effect {name : String} {origin : Origin} {id : VariableId}
    (h : c.attemptVariable name origin = .ok (id, c')) : Effect c .prepare c' := by
  obtain ⟨hname, heq⟩ := attemptVariable_ok h
  cases heq
  have heffect : Effect c .prepare
      { c.withStore (c.machine.store.add ⟨name, .global, origin, .null, none⟩) with
        exchange := c.exchange } := .addVariable rfl hname .none
  exact heffect

theorem attemptConstant_effect {name : String} {origin : Origin} {x : Float} {id : VariableId}
    (h : c.attemptConstant name origin x = .ok (id, c')) : Effect c .prepare c' := by
  obtain ⟨r, hnew, h⟩ := attempt_bind h
  obtain ⟨hname, rfl⟩ := attemptVariable_ok hnew
  cases h
  have heffect : Effect c .prepare
      { c.withStore (c.machine.store.add ⟨name, .global, origin, .number x, none⟩) with
        exchange := c.exchange } := .addVariable rfl hname .none
  rw [← Store.push_set] at heffect
  exact heffect

/-- A global that starts with a number is one that holds the number. -/
theorem declareInitial_effect (c : Controller) (d : GlobalDeclaration) :
    Effect c .prepare (c.declareInitial d).2 := by
  unfold declareInitial addGlobal
  cases hattempt : (do checkName .globalVariable d.name; c.attemptVariable d.name d.origin) with
  | error problem => exact .refuse problem
  | ok r =>
    obtain ⟨_, -, hnew⟩ := attempt_bind hattempt
    cases d.initial with
    | none => exact attemptVariable_effect hnew
    | some x =>
      -- assigning what was declared is declaring a constant
      have hconstant : c.attemptConstant d.name d.origin x
          = .ok (r.1, r.2.withStore (r.2.machine.store.set r.1 (.number x))) := by
        rw [attemptConstant, hnew]
        rfl
      exact attemptConstant_effect hconstant

/-- A new variable that is tied to an unused point drives the actuator behind all others. -/
theorem attemptActuator_ok {name : String} {available : Nat} {r : VariableId × Controller}
    (hunused : c.exchange.actuatorOf? available = none)
    (h : c.attemptActuator name available = .ok r) :
    c.machine.store.global? name = none
      ∧ r = (c.machine.store.size,
          { c.withStore (c.machine.store.add
              ⟨name, .global, .actuator, .null, some c.exchange.actuators.size⟩) with
            exchange := { c.exchange with
              actuatorCatalog :=
                c.exchange.actuatorCatalog.push ⟨name, c.machine.store.size, available⟩ } }) := by
  obtain ⟨new, hnew, h⟩ := attempt_bind h
  obtain ⟨hname, rfl⟩ := attemptVariable_ok hnew
  refine ⟨hname, ?_⟩
  have htie : c.exchange.tieActuator ⟨name, c.machine.store.size, available⟩
      = (c.exchange.actuators.size, { c.exchange with
          actuatorCatalog :=
            c.exchange.actuatorCatalog.push ⟨name, c.machine.store.size, available⟩ }) := by
    rw [Exchange.tieActuator,
      c.exchange.actuatorCatalog.enter_of_none ⟨name, c.machine.store.size, available⟩ hunused]
  have hmade : (c.machine.store.size, { c.withStore
      ((c.machine.store.push name .global .actuator).linkActuator c.machine.store.size
        (c.exchange.tieActuator ⟨name, c.machine.store.size, available⟩).1) with
      exchange := (c.exchange.tieActuator ⟨name, c.machine.store.size, available⟩).2 })
      = r := Except.ok.inj h
  rw [htie, Store.push_linkActuator] at hmade
  exact hmade.symm

theorem attemptActuator_effect {name : String} {available : Nat} {id : VariableId}
    (hlt : available < c.exchange.points.size) (hunused : c.exchange.actuatorOf? available = none)
    (h : c.attemptActuator name available = .ok (id, c')) : Effect c .prepare c' := by
  obtain ⟨hname, heq⟩ := attemptActuator_ok hunused h
  cases heq
  exact .addVariable (x := ⟨name, .global, .actuator, .null, some c.exchange.actuators.size⟩) rfl
    hname (.actuator name hlt hunused)

theorem attachActuator_effect (c : Controller)
    (name componentType uniqueName controlType : String) :
    Effect c .prepare (c.attachActuator name componentType uniqueName controlType).2 := by
  refine orRecord_effect fun id c' h => ?_
  obtain ⟨_, -, h⟩ := attempt_bind h
  split at h
  · cases h
  · next available hfound =>
    split at h
    · next hnone =>
      exact attemptActuator_effect (Catalog.lt_size_of_find? hfound)
        (Exchange.actuatorOf?_eq_none hnone) h
    · split at h
      · cases h
        exact .idle c
      · cases h

theorem attachSensor_effect (c : Controller) (name quantity key : String) :
    Effect c .prepare (c.attachSensor name quantity key).2 := by
  refine orRecord_effect fun id c' h => ?_
  obtain ⟨_, -, h⟩ := attempt_bind h
  split at h
  · cases h
  · next available hfound =>
    split at h
    · cases h
      exact .idle c
    · obtain ⟨r, hnew, h⟩ := attempt_bind h
      obtain ⟨hname, rfl⟩ := attemptVariable_ok hnew
      cases h
      exact .addVariable (x := ⟨name, .global, .sensor, .null, none⟩) rfl hname
        (c.exchange.tieSensor_ties name _ (Catalog.lt_size_of_find? hfound))

theorem attachInternalVariable_effect (c : Controller) (name quantity key : String) :
    Effect c .prepare (c.attachInternalVariable name quantity key).2 := by
  refine orRecord_effect fun id c' h => ?_
  obtain ⟨_, -, h⟩ := attempt_bind h
  split at h
  · cases h
  · next available hfound =>
    split at h
    · cases h
      exact .idle c
    · obtain ⟨r, hnew, h⟩ := attempt_bind h
      obtain ⟨hname, rfl⟩ := attemptVariable_ok hnew
      cases h
      exact .addVariable (x := ⟨name, .global, .internalVariable, .null, none⟩) rfl hname
        (c.exchange.tieInternal_ties name _ (Catalog.lt_size_of_find? hfound))

theorem declareTrend?_effect {name variableName : String} {capacity : Nat}
    {r : Except ModelProblem TrendId × Controller}
    (h : c.declareTrend? name variableName capacity = some r) : Effect c .prepare r.2 := by
  unfold declareTrend? at h
  split at h
  · cases h
    exact .refuse _
  · next source hsource =>
    obtain ⟨history, -, rfl⟩ := Option.map_eq_some_iff.1 h
    have hname : c.image.findTrend? name = none := by
      obtain ⟨_, -, hsource⟩ := attempt_bind hsource
      cases hname : c.image.findTrend? name with
      | none => rfl
      | some id =>
        rw [hname] at hsource
        cases hsource
    rw [c.image.trendCatalog.enter_of_none ⟨name, source, history⟩ hname]
    exact .addTrend (t := ⟨name, source, history⟩) hname

theorem attemptProgram_effect {entity : Entity} {kind : ProgramKind} {name source : String}
    {id : ProgramId} (h : c.attemptProgram entity kind name source = .ok (id, c')) :
    Effect c .prepare c' := by
  unfold attemptProgram at h
  split at h
  · cases h
  · split at h
    · cases h
    · next hname =>
      have hnone : c.image.findProgram? name = none := by simpa using hname
      cases h
      rw [c.image.programCatalog.enter_of_none ⟨name, kind, source, #[]⟩ hnone]
      exact .addProgram (p := ⟨name, kind, source, #[]⟩) hnone rfl

theorem bindProgram_effect (c : Controller) (point : CallingPoint) (name : String) :
    Effect c .prepare (c.bindProgram point name).2 := by
  refine orRecord_effect fun _ c' h => ?_
  unfold attemptBind at h
  split at h
  · cases h
  · split at h
    · next hkind =>
      cases h
      exact .bind point hkind
    · cases h

theorem addGlobal_effect (c : Controller) (name : String) (origin : Origin) :
    Effect c .prepare (c.addGlobal name origin).2 := by
  refine orRecord_effect fun id c' h => ?_
  obtain ⟨_, -, h⟩ := attempt_bind h
  exact attemptVariable_effect h

theorem declareCurveIndex_effect (c : Controller) (name curve : String) :
    Effect c .prepare (c.declareCurveIndex name curve).2 := by
  refine orRecord_effect fun id c' h => ?_
  obtain ⟨_, -, h⟩ := attempt_bind h
  split at h
  · cases h
  · exact attemptConstant_effect h

theorem declareConstructionIndex_effect (c : Controller) (name construction : String) :
    Effect c .prepare (c.declareConstructionIndex name construction).2 := by
  refine orRecord_effect fun id c' h => ?_
  obtain ⟨_, -, h⟩ := attempt_bind h
  split at h
  · cases h
  · exact attemptConstant_effect h

theorem addProgram_effect (c : Controller) (name source : String) :
    Effect c .prepare (c.addProgram name source).2 :=
  orRecord_effect fun _ _ => attemptProgram_effect

theorem addSubroutine_effect (c : Controller) (name source : String) :
    Effect c .prepare (c.addSubroutine name source).2 :=
  orRecord_effect fun _ _ => attemptProgram_effect

theorem publishPoint_effect (c : Controller) (p : ControlPoint) :
    ∃ deed, Effect c deed (c.publishPoint p).2 := by
  unfold publishPoint Exchange.publishPoint
  rcases c.exchange.pointCatalog.enter_cases p with ⟨i, -, hfound⟩ | ⟨hnone, hnew⟩
  · rw [hfound]
    exact ⟨_, .idle c⟩
  · rw [hnew]
    exact ⟨_, .publish (.point hnone)⟩

theorem publishOutput_effect (c : Controller) (p : SourcePoint) :
    ∃ deed, Effect c deed (c.publishOutput p) := by
  unfold publishOutput Exchange.publishOutput
  rcases c.exchange.outputCatalog.enter_cases p with ⟨i, -, hfound⟩ | ⟨hnone, hnew⟩
  · rw [hfound]
    exact ⟨_, .idle c⟩
  · rw [hnew]
    exact ⟨_, .publish (.output hnone)⟩

theorem publishInternal_effect (c : Controller) (p : SourcePoint) :
    ∃ deed, Effect c deed (c.publishInternal p) := by
  unfold publishInternal Exchange.publishInternal
  rcases c.exchange.internalCatalog.enter_cases p with ⟨i, -, hfound⟩ | ⟨hnone, hnew⟩
  · rw [hfound]
    exact ⟨_, .idle c⟩
  · rw [hnew]
    exact ⟨_, .publish (.internal hnone)⟩

theorem publishConstruction_effect (c : Controller) (name : String) :
    Effect c .prepare (c.publishConstruction name).2 := by
  unfold publishConstruction
  split
  · exact .idle c
  · exact .host c.image.routines c.image.curves c.cells _

theorem writeGlobal_effect {name : String} {v : Value} (h : c.writeGlobal name v = .ok c') :
    Effect c .prepare c' := by
  unfold writeGlobal at h
  split at h
  · cases h
  · split at h
    · cases h
    · next hfree =>
      cases h
      exact .assign v (by simpa using hfree)

/-- Every operation has one of the effects. -/
theorem Does.effect (h : Does c c') : ∃ deed, Effect c deed c' := by
  cases h with
  | publishPoint p => exact c.publishPoint_effect p
  | publishOutput p => exact c.publishOutput_effect p
  | publishInternal p => exact c.publishInternal_effect p
  | run point => exact ⟨_, .run point⟩
  | installRoutines routines => exact ⟨_, .host routines c.image.curves c.cells c.constructions⟩
  | installCurves curves => exact ⟨_, .host c.image.routines curves c.cells c.constructions⟩
  | addCell cell => exact ⟨_, .host c.image.routines c.image.curves _ c.constructions⟩
  | assignCell id x => exact ⟨_, .host c.image.routines c.image.curves _ c.constructions⟩
  | publishConstruction name => exact ⟨_, c.publishConstruction_effect name⟩
  | updateClock clock => exact ⟨_, .updateClock clock⟩
  | writeGlobal hwrite => exact ⟨_, writeGlobal_effect hwrite⟩
  | addGlobal name origin => exact ⟨_, c.addGlobal_effect name origin⟩
  | declareInitial d => exact ⟨_, c.declareInitial_effect d⟩
  | declareCurveIndex name curve => exact ⟨_, c.declareCurveIndex_effect name curve⟩
  | declareConstructionIndex name construction =>
    exact ⟨_, c.declareConstructionIndex_effect name construction⟩
  | attachActuator name componentType uniqueName controlType =>
    exact ⟨_, c.attachActuator_effect name componentType uniqueName controlType⟩
  | attachSensor name quantity key => exact ⟨_, c.attachSensor_effect name quantity key⟩
  | attachInternalVariable name quantity key =>
    exact ⟨_, c.attachInternalVariable_effect name quantity key⟩
  | declareTrend htrend => exact ⟨_, declareTrend?_effect htrend⟩
  | addProgram name source => exact ⟨_, c.addProgram_effect name source⟩
  | addSubroutine name source => exact ⟨_, c.addSubroutine_effect name source⟩
  | bindProgram point name => exact ⟨_, c.bindProgram_effect point name⟩
  | refusePoint name => exact ⟨_, .refuse _⟩
  | compile => exact ⟨_, .compile⟩

end Controller

end Erl
