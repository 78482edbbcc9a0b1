/-
  Erl.Proofs.Controller.Lasting

  What lasts, whatever a host does.

  A variable keeps everything but its value, so a name that was found once is found at the same
  position for ever.  Catalogs only grow, and the flag of a controlled point is all that changes in
  an entry.  Only a publication adds to what is published, and only a run takes samples.
-/

import Mathlib.Data.List.Infix
import Erl.Proofs.Controller.ByName
import Erl.Proofs.Controller.Session
import Erl.Proofs.Controller.Ties

namespace Erl

/-! ## Variables -/

theorem Machine.Becomes.lasts {img : Image} {m m' : Machine} (h : m.Becomes img m') :
    m.store.Lasts m'.store := by
  induction h with
  | refl => exact .refl _
  | tail _ hchange ih =>
    refine ih.trans ?_
    cases hchange with
    | assign v _ => exact .set _ _ v
    | draw generator => exact .refl _
    | report program message _ => exact .refl _
    | note line => exact .refl _

theorem Exchange.refresh_lasts (b : Exchange) (cells : Cells) (t : Store) :
    t.Lasts (b.refresh cells t) := by
  have hread : ∀ (sources : Array SourcePoint) (t : Store) (tie : Tie),
      t.Lasts (readTie cells sources t tie) := by
    intro sources t tie
    unfold readTie
    split
    · exact .set _ _ _
    · exact .refl t
  -- the sensors are read first, then the internal variables
  unfold refresh
  rw [← Array.foldl_toList, ← Array.foldl_toList]
  exact (Store.Lasts.foldl (hread b.outputs) _ t).trans (.foldl (hread b.internals) _ _)

/-! ## Catalogs -/

section Prefixes

variable {α : Type} {xs ys : Array α}

/-- What is added at the end leaves the entries before it as they are. -/
theorem prefix_push (xs : Array α) (a : α) : xs.toList <+: (xs.push a).toList := by
  rw [Array.toList_push]
  exact List.prefix_append _ _

/-- Entries stay where they are. -/
theorem getElem?_of_extends (h : xs.toList <+: ys.toList) {i : Nat} {a : α}
    (hi : xs[i]? = some a) : ys[i]? = some a := by
  obtain ⟨added, hadded⟩ := h
  rw [← Array.getElem?_toList] at hi ⊢
  obtain ⟨hlt, -⟩ := List.getElem?_eq_some_iff.1 hi
  rw [← hadded, List.getElem?_append_left hlt, hi]

/-- What is found is found where it was. -/
theorem findIdx?_of_extends (h : xs.toList <+: ys.toList) {p : α → Bool} {i : Nat}
    (hi : xs.findIdx? p = some i) : ys.findIdx? p = some i := by
  rw [← xs.toArray_toList, List.findIdx?_toArray] at hi
  rw [← ys.toArray_toList, List.findIdx?_toArray]
  exact h.findIdx?_eq_some hi

/-- A catalog that holds more finds what it found where it was. -/
theorem find?_of_extends {κ : Type} [DecidableEq κ] {key : α → κ} {t t' : Catalog key}
    (h : t.entries.toList <+: t'.entries.toList) {k : κ} {i : Nat} (hi : t.find? k = some i) :
    t'.find? k = some i := by
  rw [t.find?_eq_findIdx?] at hi
  rw [t'.find?_eq_findIdx?]
  exact findIdx?_of_extends h hi

end Prefixes

/-- A controlled point without its flag. -/
def ControlPoint.released (p : ControlPoint) : ControlPoint :=
  { p with overridden := false }

namespace Exchange

/-- All entries stay where they are, and only the flags of controlled points may differ. -/
structure Extends (b b' : Exchange) : Prop where
  points :
    b.points.toList.map ControlPoint.released <+: b'.points.toList.map ControlPoint.released
  outputs : b.outputs.toList <+: b'.outputs.toList
  internals : b.internals.toList <+: b'.internals.toList
  actuators : b.actuators.toList <+: b'.actuators.toList
  sensors : b.sensors.toList <+: b'.sensors.toList
  internalVariables : b.internalVariables.toList <+: b'.internalVariables.toList

/-- Flags are not part of what points are found by. -/
theorem findPoint?_eq (b : Exchange) (componentType uniqueName controlType : String) :
    b.findPoint? componentType uniqueName controlType
      = (b.points.toList.map ControlPoint.released).findIdx? fun p =>
          p.foldedKey == foldedKey [componentType, uniqueName, controlType] := by
  rw [List.findIdx?_map, ← List.findIdx?_toArray, Array.toArray_toList]
  exact b.pointCatalog.find?_eq fun _ => beq_iff_eq

/-- A controlled point that is found is found where it was. -/
theorem Extends.findPoint? {b b' : Exchange} (h : b.Extends b')
    {componentType uniqueName controlType : String} {available : Nat}
    (hfound : b.findPoint? componentType uniqueName controlType = some available) :
    b'.findPoint? componentType uniqueName controlType = some available := by
  rw [findPoint?_eq] at hfound ⊢
  exact h.points.findIdx?_eq_some hfound

theorem Extends.refl (b : Exchange) : b.Extends b :=
  ⟨List.prefix_rfl, List.prefix_rfl, List.prefix_rfl, List.prefix_rfl, List.prefix_rfl,
    List.prefix_rfl⟩

theorem Extends.trans {b b' b'' : Exchange} (h : b.Extends b') (h' : b'.Extends b'') :
    b.Extends b'' :=
  ⟨h.points.trans h'.points, h.outputs.trans h'.outputs, h.internals.trans h'.internals,
    h.actuators.trans h'.actuators, h.sensors.trans h'.sensors,
    h.internalVariables.trans h'.internalVariables⟩

theorem Publishes.extends {b b' : Exchange} (h : b.Publishes b') : b.Extends b' := by
  cases h with
  | point _ => exact { Extends.refl b with points := (prefix_push _ _).map _ }
  | output _ => exact { Extends.refl b with outputs := prefix_push _ _ }
  | internal _ => exact { Extends.refl b with internals := prefix_push _ _ }

theorem Ties.extends {b b' : Exchange} {id : VariableId} {origin : Origin} {link : Option Nat}
    (h : b.Ties id origin link b') : b.Extends b' := by
  cases h with
  | none => exact .refl b
  | actuator name _ _ => exact { Extends.refl b with actuators := prefix_push _ _ }
  | sensor name _ => exact { Extends.refl b with sensors := prefix_push _ _ }
  | internalVariable name _ =>
    exact { Extends.refl b with internalVariables := prefix_push _ _ }

/-- A flag that is set leaves the rest of the points as it is. -/
theorem released_setOverride (b : Exchange) (available : Nat) (on : Bool) :
    (b.setOverride available on).points.map ControlPoint.released
      = b.points.map ControlPoint.released := by
  apply Array.ext_getElem?
  intro k
  rw [Array.getElem?_map, Array.getElem?_map, points_setOverride]
  split
  · rw [Option.map_map]
    rfl
  · rfl

/-- Commands leave everything but the flags of points as it is. -/
theorem performAllOn_released {H : Type} (write : Writer H) (cs : List Command) (b : Exchange)
    (host : H) :
    (b.performAllOn write host cs).1.points.map ControlPoint.released
      = b.points.map ControlPoint.released := by
  induction cs generalizing b host with
  | nil => rfl
  | cons c rest ih =>
    rw [performAllOn_cons, ih]
    cases c with
    | write available x =>
      -- a flag is set only if the host takes the value
      unfold performOn
      dsimp only
      split
      · exact b.released_setOverride available true
      · rfl
    | release available => exact b.released_setOverride available false
    | refuse actuator v => rfl

end Exchange

/-! ## Operations -/

namespace Controller

variable {c c' : Controller}

theorem RunsTo.lasts {point : CallingPoint} {r : Except RunError (List Outcome)}
    (h : RunsTo c point r c') : c.machine.store.Lasts c'.machine.store := by
  rcases h.store with ⟨rfl, -⟩ | ⟨store, m, hstarts, hbecomes, heq⟩
  · exact .refl _
  · -- a run that starts reads the ties, and then its programs assign
    rw [heq]
    have hrefreshed := Exchange.refresh?_eq_some hstarts.refreshed
    exact (hrefreshed ▸ c.exchange.refresh_lasts c.cells c.machine.store).trans hbecomes.lasts

/-- A run changes nothing but flags of what is published. -/
theorem RunsTo.released {point : CallingPoint} {r : Except RunError (List Outcome)}
    (h : RunsTo c point r c') :
    c'.exchange.points.map ControlPoint.released = c.exchange.points.map ControlPoint.released := by
  cases h with
  | @done store outcomes m commands _ _ _ =>
    exact c.exchange.performAllOn_released Exchange.writeCell commands c.cells
  -- nothing is written back by a run that does not come to its end
  | _ => rfl

theorem RunsTo.extends {point : CallingPoint} {r : Except RunError (List Outcome)}
    (h : RunsTo c point r c') : c.exchange.Extends c'.exchange := by
  obtain ⟨points, -, hexchange⟩ := h.exchange
  have hreleased := congrArg Array.toList h.released
  rw [Array.toList_map, Array.toList_map] at hreleased
  rw [hexchange] at hreleased ⊢
  exact { Exchange.Extends.refl c.exchange with points := by rw [hreleased] }

/-- Whatever a host does, variables keep everything but their values. -/
theorem Does.lasts (h : Does c c') : c.machine.store.Lasts c'.machine.store := by
  obtain ⟨_, heffect⟩ := h.effect
  cases heffect with
  | addVariable _ _ _ => exact (Store.Grows.add _ _).lasts
  | assign v _ => exact .set _ _ v
  | updateClock clock => exact .foldl (fun t a => .set t _ _) _ _
  | compile => exact c.compile_le.1.lasts
  | run point => exact (c.run_runsTo point).lasts
  | host routines curves cells constructions => exact .refl _
  | publish _ => exact .refl _
  | refuse problem => exact .refl _
  | addTrend _ => exact .refl _
  | addProgram _ _ => exact .refl _
  | bind point _ => exact .refl _

/-- Compiling and variables are not part of the exchange with the host. -/
theorem exchange_compile (c : Controller) : c.compile.exchange = c.exchange :=
  rfl

theorem exchange_withStore (c : Controller) (store : Store) :
    (c.withStore store).exchange = c.exchange :=
  rfl

/-- Whatever a host does, entries of catalogs stay. -/
theorem Does.extends (h : Does c c') : c.exchange.Extends c'.exchange := by
  obtain ⟨_, heffect⟩ := h.effect
  cases heffect with
  | publish hb => exact hb.extends
  | addVariable _ _ hb => exact hb.extends
  | run point => exact (c.run_runsTo point).extends
  | host routines curves cells constructions => exact .refl _
  | refuse problem => exact .refl _
  | assign v _ => exact .refl _
  | updateClock clock =>
    rw [Controller.updateClock, exchange_withStore]
    exact .refl _
  | addTrend _ => exact .refl _
  | addProgram _ _ => exact .refl _
  | bind point _ => exact .refl _
  | compile =>
    rw [exchange_compile]
    exact .refl _

theorem Later.lasts (h : Later c c') : c.machine.store.Lasts c'.machine.store := by
  induction h with
  | refl => exact .refl _
  | tail _ hdoes ih => exact ih.trans hdoes.lasts

theorem Later.extends (h : Later c c') : c.exchange.Extends c'.exchange := by
  induction h with
  | refl => exact .refl _
  | tail _ hdoes ih => exact ih.trans hdoes.extends

/-! ## Preparations -/

/-- Operations that neither publish nor run, one after another. -/
def Prepares : Controller → Controller → Prop :=
  Relation.ReflTransGen fun c c' => Does c c' ∧ Effect c .prepare c'

theorem Prepares.later (h : Prepares c c') : Later c c' := by
  induction h with
  | refl => exact .refl
  | tail _ hstep ih => exact ih.tail hstep.1

/-- Only a publication adds to what is published. -/
theorem Prepares.published (h : Prepares c c') :
    c'.exchange.points = c.exchange.points ∧ c'.exchange.outputs = c.exchange.outputs
      ∧ c'.exchange.internals = c.exchange.internals := by
  induction h with
  | refl => exact ⟨rfl, rfl, rfl⟩
  | tail _ hstep ih =>
    obtain ⟨hpoints, houtputs, hinternals⟩ := ih
    rw [← hpoints, ← houtputs, ← hinternals]
    cases hstep.2 with
    | addVariable _ _ hb => exact hb.published
    | host routines curves cells constructions => exact ⟨rfl, rfl, rfl⟩
    | refuse problem => exact ⟨rfl, rfl, rfl⟩
    | assign v _ => exact ⟨rfl, rfl, rfl⟩
    | updateClock clock => exact ⟨rfl, rfl, rfl⟩
    | addTrend _ => exact ⟨rfl, rfl, rfl⟩
    | addProgram _ _ => exact ⟨rfl, rfl, rfl⟩
    | bind point _ => exact ⟨rfl, rfl, rfl⟩
    | compile => exact ⟨rfl, rfl, rfl⟩

/-- Only a run takes samples. -/
theorem Prepares.trends (h : Prepares c c') :
    c.image.trends.toList <+: c'.image.trends.toList := by
  induction h with
  | refl => exact List.prefix_rfl
  | tail _ hstep ih =>
    refine ih.trans ?_
    cases hstep.2 with
    | addTrend _ => exact prefix_push _ _
    | host routines curves cells constructions => exact List.prefix_rfl
    | refuse problem => exact List.prefix_rfl
    | addVariable _ _ _ => exact List.prefix_rfl
    | assign v _ => exact List.prefix_rfl
    | updateClock clock => exact List.prefix_rfl
    | addProgram _ _ => exact List.prefix_rfl
    | bind point _ => exact List.prefix_rfl
    | compile => exact List.prefix_rfl

theorem declare?_prepares {d : Declaration} {r : Except ModelProblem Unit × Controller}
    (h : c.declare? d = some r) : Prepares c r.2 := by
  refine .single ⟨declare?_does h, ?_⟩
  cases d with
  | trend d =>
    obtain ⟨r', htrend, rfl⟩ := Option.map_eq_some_iff.1 h
    exact declareTrend?_effect htrend
  | global d =>
    cases h
    exact c.declareInitial_effect d
  | sensor d =>
    cases h
    exact c.attachSensor_effect d.name d.quantity d.key
  | actuator d =>
    cases h
    exact c.attachActuator_effect d.name d.componentType d.uniqueName d.controlType
  | internalVariable d =>
    cases h
    exact c.attachInternalVariable_effect d.name d.quantity d.key
  | curveIndex d =>
    cases h
    exact c.declareCurveIndex_effect d.name d.subject
  | constructionIndex d =>
    cases h
    exact c.declareConstructionIndex_effect d.name d.subject
  | program d =>
    cases h
    exact c.addProgram_effect d.name d.source
  | subroutine d =>
    cases h
    exact c.addSubroutine_effect d.name d.source
  | unknownPoint name =>
    cases h
    exact .refuse _
  | bind point program =>
    cases h
    exact c.bindProgram_effect point program

theorem withModel?_prepares {m : Model} (h : c.withModel? m = some c') : Prepares c c' := by
  have hsteps : ∀ (steps : List Declaration) {c c' : Controller},
      steps.foldlM (fun (c : Controller) d => (c.declare? d).map Prod.snd) c = some c' →
        Prepares c c' := by
    intro steps
    induction steps with
    | nil =>
      intro c c' h
      cases h
      exact .refl
    | cons d rest ih =>
      intro c c' h
      rw [List.foldlM_cons] at h
      obtain ⟨c₁, hfirst, hrest⟩ := Option.bind_eq_some_iff.1 h
      obtain ⟨r, hr, rfl⟩ := Option.map_eq_some_iff.1 hfirst
      exact (declare?_prepares hr).trans (ih hrest)
  -- a model is compiled when everything in it is declared
  obtain ⟨c₁, hdeclared, rfl⟩ := Option.map_eq_some_iff.1 h
  exact (hsteps m.steps hdeclared).tail ⟨.compile, .compile⟩

end Controller

/-! ## Sessions -/

/-- The kind of a request. -/
def Request.deed : Request → Controller.Deed
  | publishPoint _ | publishOutput _ | publishInternal _ => .publish
  | run _ => .run
  | _ => .prepare

namespace Controller

variable {c c' : Controller} {request : Request} {answer : Answer}

/-- A request that neither publishes nor runs is one or more operations of this kind. -/
theorem ask?_prepares (h : c.ask? request = some (answer, c')) (hdeed : request.deed = .prepare) :
    Prepares c c' := by
  cases request with
  | publishPoint p => cases hdeed
  | publishOutput p => cases hdeed
  | publishInternal p => cases hdeed
  | run point => cases hdeed
  | applyModel m =>
    obtain ⟨c₁, hmodel, hanswer⟩ := Option.map_eq_some_iff.1 h
    cases hanswer
    exact withModel?_prepares hmodel
  | declareTrend name variableName capacity =>
    obtain ⟨r, htrend, hanswer⟩ := Option.map_eq_some_iff.1 h
    cases hanswer
    exact .single ⟨.declareTrend htrend, declareTrend?_effect htrend⟩
  | writeGlobal name v =>
    unfold ask? at h
    dsimp only at h
    split at h
    · next hwrite =>
      cases h
      exact .single ⟨.writeGlobal hwrite, writeGlobal_effect hwrite⟩
    · -- a value that is refused leaves the controller as it is
      cases h
      exact .refl
  | readGlobal name =>
    cases h
    exact .refl
  | readInProgram program name =>
    cases h
    exact .refl
  | installRoutines routines =>
    cases h
    exact .single ⟨.installRoutines routines, .host _ _ _ _⟩
  | installCurves curves =>
    cases h
    exact .single ⟨.installCurves curves, .host _ _ _ _⟩
  | addCell cell =>
    cases h
    exact .single ⟨.addCell cell, .host _ _ _ _⟩
  | assignCell id x =>
    cases h
    exact .single ⟨.assignCell id x, .host _ _ _ _⟩
  | publishConstruction name =>
    cases h
    exact .single ⟨.publishConstruction name, c.publishConstruction_effect name⟩
  | updateClock clock =>
    cases h
    exact .single ⟨.updateClock clock, .updateClock clock⟩
  | addGlobal name origin =>
    cases h
    exact .single ⟨.addGlobal name origin, c.addGlobal_effect name origin⟩
  | declareCurveIndex name curve =>
    cases h
    exact .single ⟨.declareCurveIndex name curve, c.declareCurveIndex_effect name curve⟩
  | declareConstructionIndex name construction =>
    cases h
    exact .single ⟨.declareConstructionIndex name construction,
      c.declareConstructionIndex_effect name construction⟩
  | attachActuator name componentType uniqueName controlType =>
    cases h
    exact .single ⟨.attachActuator name componentType uniqueName controlType,
      c.attachActuator_effect name componentType uniqueName controlType⟩
  | attachSensor name quantity key =>
    cases h
    exact .single ⟨.attachSensor name quantity key, c.attachSensor_effect name quantity key⟩
  | attachInternalVariable name quantity key =>
    cases h
    exact .single ⟨.attachInternalVariable name quantity key,
      c.attachInternalVariable_effect name quantity key⟩
  | addProgram name source =>
    cases h
    exact .single ⟨.addProgram name source, c.addProgram_effect name source⟩
  | addSubroutine name source =>
    cases h
    exact .single ⟨.addSubroutine name source, c.addSubroutine_effect name source⟩
  | bindProgram point name =>
    cases h
    exact .single ⟨.bindProgram point name, c.bindProgram_effect point name⟩
  | compile =>
    cases h
    exact .single ⟨.compile, .compile⟩

/-- A request is answered by operations. -/
theorem ask?_later (h : c.ask? request = some (answer, c')) : Later c c' := by
  by_cases hdeed : request.deed = .prepare
  · exact (ask?_prepares h hdeed).later
  · cases request with
    | publishPoint p =>
      cases h
      exact .single (.publishPoint p)
    | publishOutput p =>
      cases h
      exact .single (.publishOutput p)
    | publishInternal p =>
      cases h
      exact .single (.publishInternal p)
    | run point =>
      cases h
      exact .single (.run point)
    | _ => exact absurd rfl hdeed

/-- A session that goes on has an answer to its first request. -/
theorem askEach?_cons {rest : List Request} {answers : List Answer}
    (h : c.askEach? (request :: rest) = some (answers, c')) :
    ∃ answer answers' c₁, c.ask? request = some (answer, c₁)
      ∧ c₁.askEach? rest = some (answers', c') ∧ answers = answer :: answers' := by
  obtain ⟨⟨answer, c₁⟩, hfirst, h⟩ := Option.bind_eq_some_iff.1 h
  obtain ⟨⟨answers', c₂⟩, hrest, heq⟩ := Option.map_eq_some_iff.1 h
  cases heq
  exact ⟨answer, answers', c₁, hfirst, hrest, rfl⟩

theorem askEach?_later {requests : List Request} {answers : List Answer}
    (h : c.askEach? requests = some (answers, c')) : Later c c' := by
  induction requests generalizing c answers with
  | nil =>
    cases h
    exact .refl
  | cons request rest ih =>
    obtain ⟨answer, answers', c₁, hfirst, hrest, -⟩ := askEach?_cons h
    exact (ask?_later hfirst).trans (ih hrest)

end Controller

end Erl
