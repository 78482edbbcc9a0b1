/-
  Erl.Proofs.Guise.Declaration

  Models are declared alike in two guises.

  Whether a declaration is refused depends on names and on what the host offers, which are the same
  in both controllers.  So both refuse it with the same problem, or both make it at the same
  position.  A program may be declared with sources that are read as the same code.
-/

import Erl.Model.Basic
import Erl.Proofs.Guise.Lowering

namespace Erl.Guise

open Respelling

variable {g : Guise}

/-! ## Attempts -/

variable (g) in
/-- Two attempts that are both refused, with the same problem, or both made, with the same
    result. -/
inductive AttemptsAlike {α : Type} : Except ModelProblem (α × Controller) →
    Except ModelProblem (α × Controller) → Prop where
  | refused (problem : ModelProblem) : AttemptsAlike (.error problem) (.error problem)
  | made (a : α) {c c' : Controller} :
      g.SameController c c' → AttemptsAlike (.ok (a, c)) (.ok (a, c'))

namespace AttemptsAlike

variable {α β : Type} {x y : Except ModelProblem (α × Controller)}

/-- A check that both attempts begin with. -/
theorem check (h : g.AttemptsAlike x y) (checked : Except ModelProblem Unit) :
    g.AttemptsAlike (checked >>= fun _ => x) (checked >>= fun _ => y) := by
  cases checked with
  | error problem => exact .refused problem
  | ok _ => exact h

theorem bind (h : g.AttemptsAlike x y)
    {f k : α × Controller → Except ModelProblem (β × Controller)}
    (hf : ∀ (a : α) (c c' : Controller), g.SameController c c' →
      g.AttemptsAlike (f (a, c)) (k (a, c'))) :
    g.AttemptsAlike (x >>= f) (y >>= k) := by
  cases h with
  | refused problem => exact .refused problem
  | made a hc => exact hf a _ _ hc

end AttemptsAlike

variable (g) in
/-- Two results of a request: what the host is told and the controller afterwards. -/
def SameResult {α : Type} (r r' : α × Controller) : Prop :=
  r.1 = r'.1 ∧ g.SameController r.2 r'.2

namespace SameController

variable {c c' : Controller} (h : g.SameController c c')
include h

theorem withStore {t t' : Store} (ht : g.store t = g.store t') :
    g.SameController (c.withStore t) (c'.withStore t') :=
  { h with machine := h.machine.withStore ht }

theorem orRecord {α : Type} {x y : Except ModelProblem (α × Controller)}
    (hxy : g.AttemptsAlike x y) : g.SameResult (c.orRecord x) (c'.orRecord y) := by
  cases hxy with
  | made a hc => exact ⟨rfl, hc⟩
  | refused problem =>
    refine ⟨rfl, { h with problems := ?_ }⟩
    show (c.problems ++ [problem]).map g.problem = (c'.problems ++ [problem]).map g.problem
    rw [List.map_append, List.map_append, h.problems]

/-! ## Globals -/

theorem attemptVariable (name : String) (origin : Origin) :
    g.AttemptsAlike (c.attemptVariable name origin) (c'.attemptVariable name origin) := by
  unfold Controller.attemptVariable
  have hglobal := global?_eq h.machine.store name
  cases hfound : c'.machine.store.global? name with
  | some existing =>
    rw [Store.addGlobal_of_some (hglobal.trans hfound), Store.addGlobal_of_some hfound]
    exact .refused _
  | none =>
    rw [Store.addGlobal_of_none (hglobal.trans hfound), Store.addGlobal_of_none hfound]
    dsimp only
    rw [size_eq h.machine.store]
    exact .made _ (h.withStore (push_global_congr h.machine.store name origin))

theorem attemptConstant (name : String) (origin : Origin) (x : Float) :
    g.AttemptsAlike (c.attemptConstant name origin x) (c'.attemptConstant name origin x) :=
  (h.attemptVariable name origin).bind fun id _ _ hc =>
    .made id (hc.withStore (set_congr hc.machine.store id (.number x)))

theorem addGlobal (name : String) (origin : Origin) :
    g.SameResult (c.addGlobal name origin) (c'.addGlobal name origin) :=
  h.orRecord ((h.attemptVariable name origin).check _)

theorem declareCurveIndex (name curve : String) :
    g.SameResult (c.declareCurveIndex name curve) (c'.declareCurveIndex name curve) := by
  refine h.orRecord (.check ?_ _)
  rw [h.image.curves]
  cases c'.image.curves.index? curve with
  | none => exact .refused _
  | some index => exact h.attemptConstant name .curveIndex _

theorem constructionIndex? (name : String) :
    c.constructionIndex? name = c'.constructionIndex? name := by
  rw [Controller.constructionIndex?, Controller.constructionIndex?, h.constructions]

theorem declareConstructionIndex (name construction : String) :
    g.SameResult (c.declareConstructionIndex name construction)
      (c'.declareConstructionIndex name construction) := by
  refine h.orRecord (.check ?_ _)
  rw [h.constructionIndex?]
  cases c'.constructionIndex? construction with
  | none => exact .refused _
  | some index => exact h.attemptConstant name .constructionIndex _

/-! ## Exchange -/

theorem withExchange (exchange : Exchange) :
    g.SameController { c with exchange } { c' with exchange } :=
  { h with exchange := rfl }

theorem attemptActuator (name : String) (available : Nat) :
    g.AttemptsAlike (c.attemptActuator name available) (c'.attemptActuator name available) := by
  refine (h.attemptVariable name .actuator).bind fun id d d' hd => ?_
  dsimp only
  rw [hd.exchange]
  generalize d'.exchange.tieActuator ⟨name, id, available⟩ = tied
  obtain ⟨actuator, exchange⟩ := tied
  exact .made id
    ((hd.withStore (linkActuator_congr hd.machine.store id actuator)).withExchange exchange)

theorem attachActuator (name componentType uniqueName controlType : String) :
    g.SameResult (c.attachActuator name componentType uniqueName controlType)
      (c'.attachActuator name componentType uniqueName controlType) := by
  refine h.orRecord (.check ?_ _)
  rw [h.exchange]
  cases c'.exchange.findPoint? componentType uniqueName controlType with
  | none => exact .refused _
  | some available =>
    dsimp only
    cases (c'.exchange.actuatorOf? available).bind (c'.exchange.actuators[·]?) with
    | none => exact h.attemptActuator name available
    | some used =>
      dsimp only
      split
      · exact .made used.target h
      · exact .refused _

theorem tiedGlobal? (ties : Array Tie) (name : String) (available : Nat) :
    c.tiedGlobal? ties name available = c'.tiedGlobal? ties name available := by
  rw [Controller.tiedGlobal?, Controller.tiedGlobal?, global?_eq h.machine.store]

/-- A global is tied to a source, or is returned as it is if it was tied already. -/
theorem attemptSource (name : String) (origin : Origin) (tied : Option VariableId)
    (tie : VariableId → Exchange → Exchange) :
    g.AttemptsAlike
      (match tied with
        | some id => pure (id, c)
        | none => do
          let (id, c) ← c.attemptVariable name origin
          return (id, { c with exchange := tie id c.exchange }))
      (match tied with
        | some id => pure (id, c')
        | none => do
          let (id, c) ← c'.attemptVariable name origin
          return (id, { c with exchange := tie id c.exchange })) := by
  cases tied with
  | some id => exact .made id h
  | none =>
    refine (h.attemptVariable name origin).bind fun id d d' hd => ?_
    dsimp only
    rw [hd.exchange]
    exact .made id (hd.withExchange _)

theorem attachSensor (name quantity key : String) :
    g.SameResult (c.attachSensor name quantity key) (c'.attachSensor name quantity key) := by
  refine h.orRecord (.check ?_ _)
  rw [h.exchange]
  cases c'.exchange.findOutput? quantity key with
  | none => exact .refused _
  | some available =>
    dsimp only
    rw [h.tiedGlobal?]
    exact h.attemptSource name .sensor _ fun id b => (b.tieSensor ⟨name, id, available⟩).2

theorem attachInternalVariable (name quantity key : String) :
    g.SameResult (c.attachInternalVariable name quantity key)
      (c'.attachInternalVariable name quantity key) := by
  refine h.orRecord (.check ?_ _)
  rw [h.exchange]
  cases c'.exchange.findInternal? quantity key with
  | none => exact .refused _
  | some available =>
    dsimp only
    rw [h.tiedGlobal?]
    exact h.attemptSource name .internalVariable _ fun id b =>
      (b.tieInternal ⟨name, id, available⟩).2

/-! ## Trends -/

theorem trendSource (name variableName : String) (capacity : Nat) :
    c.trendSource name variableName capacity = c'.trendSource name variableName capacity := by
  unfold Controller.trendSource
  rw [c.image.findTrend?_eq, c'.image.findTrend?_eq, h.image.trends, global?_eq h.machine.store]

/-- Both have the trend afterwards, or there is no room for it in either. -/
theorem declareTrend? (name variableName : String) (capacity : Nat) :
    Option.Rel g.SameResult (c.declareTrend? name variableName capacity)
      (c'.declareTrend? name variableName capacity) := by
  unfold Controller.declareTrend?
  rw [h.trendSource]
  cases c'.trendSource name variableName capacity with
  | error problem => exact .some (h.orRecord (.refused problem))
  | ok source =>
    dsimp only
    cases (History.ofCapacity? capacity : Option (History Float)) with
    | none => exact .none
    | some history =>
      have htrends : (c.image.trendCatalog.enter ⟨name, source, history⟩).2
          = (c'.image.trendCatalog.enter ⟨name, source, history⟩).2 := by
        rw [h.image.trendCatalog]
      refine .some ⟨?_, { h with image := { h.image with trendCatalog := htrends } }⟩
      show Except.ok c.image.trends.size = Except.ok c'.image.trends.size
      rw [h.image.trends]

/-! ## Programs -/

theorem findProgram? (name : String) : c.image.findProgram? name = c'.image.findProgram? name := by
  rw [c.image.findProgram?_eq, c'.image.findProgram?_eq, programNamed?_eq h.image.programs rfl]

/-- A program is declared with either of two sources that are read as the same code. -/
theorem attemptProgram (entity : Entity) (kind : ProgramKind) (name : String)
    {source source' : String} (hsource : g.code (parseCode source) = g.code (parseCode source')) :
    g.AttemptsAlike (c.attemptProgram entity kind name source)
      (c'.attemptProgram entity kind name source') := by
  unfold Controller.attemptProgram
  rw [h.findProgram?]
  cases NameFlaw.ofProgram? name with
  | some flaw => exact .refused _
  | none =>
    dsimp only
    split
    · exact .refused _
    · next hnew =>
      have hunused' : c'.image.findProgram? name = none := Option.not_isSome_iff_eq_none.1 hnew
      have hunused := (h.findProgram? name).trans hunused'
      rw [c.image.programCatalog.enter_of_none ⟨name, kind, source, #[]⟩ hunused,
        c'.image.programCatalog.enter_of_none ⟨name, kind, source', #[]⟩ hunused']
      have hsize : c.image.programs.size = c'.image.programs.size := by
        have heq := congrArg Array.size h.image.programs
        rwa [Array.size_map, Array.size_map] at heq
      have hprograms : (c.image.programs.push ⟨name, kind, source, #[]⟩).map g.program
          = (c'.image.programs.push ⟨name, kind, source', #[]⟩).map g.program := by
        rw [Array.map_push, Array.map_push, h.image.programs]
        rfl
      have hsources : (c.image.programs.push ⟨name, kind, source, #[]⟩).map g.sourceCode
          = (c'.image.programs.push ⟨name, kind, source', #[]⟩).map g.sourceCode := by
        rw [Array.map_push, Array.map_push, h.sources]
        exact congrArg _ hsource
      rw [hsize]
      exact .made _ { h with
        image := { h.image with programs := hprograms }
        sources := hsources
        compiled := rfl }

theorem addProgram (name : String) {source source' : String}
    (hsource : g.code (parseCode source) = g.code (parseCode source')) :
    g.SameResult (c.addProgram name source) (c'.addProgram name source') :=
  h.orRecord (h.attemptProgram .program .main name hsource)

theorem addSubroutine (name : String) {source source' : String}
    (hsource : g.code (parseCode source) = g.code (parseCode source')) :
    g.SameResult (c.addSubroutine name source) (c'.addSubroutine name source') :=
  h.orRecord (h.attemptProgram .subroutine .subroutine name hsource)

theorem bindProgram (point : CallingPoint) (name : String) :
    g.SameResult (c.bindProgram point name) (c'.bindProgram point name) := by
  refine h.orRecord ?_
  unfold Controller.attemptBind
  rw [h.findProgram?]
  cases c'.image.findProgram? name with
  | none => exact .refused _
  | some id =>
    dsimp only
    rw [kind_eq h.image.programs, h.schedule]
    split
    · exact .made () { h with schedule := rfl }
    · exact .refused _

/-! ## Models -/

theorem declareInitial (d : GlobalDeclaration) :
    g.SameResult (c.declareInitial d) (c'.declareInitial d) := by
  have hglobal := h.addGlobal d.name d.origin
  unfold Controller.declareInitial
  generalize c.addGlobal d.name d.origin = r at hglobal
  generalize c'.addGlobal d.name d.origin = r' at hglobal
  obtain ⟨result, e⟩ := r
  obtain ⟨result', e'⟩ := r'
  obtain ⟨hresult, he⟩ := hglobal
  obtain rfl : result = result' := hresult
  cases result with
  | error problem => exact ⟨rfl, he⟩
  | ok id =>
    cases d.initial with
    | none => exact ⟨rfl, he⟩
    | some x => exact ⟨rfl, he.withStore (set_congr he.machine.store id (.number x))⟩

theorem declare? (d : Declaration) :
    Option.Rel g.SameResult (c.declare? d) (c'.declare? d) := by
  have hdiscard : ∀ {r r' : Except ModelProblem Nat × Controller}, g.SameResult r r' →
      g.SameResult (Controller.declare?.discard r) (Controller.declare?.discard r') :=
    fun hr => ⟨congrArg (Except.map fun _ => ()) hr.1, hr.2⟩
  cases d with
  | global d => exact .some (hdiscard (h.declareInitial d))
  | sensor d => exact .some (hdiscard (h.attachSensor d.name d.quantity d.key))
  | actuator d =>
    exact .some (hdiscard (h.attachActuator d.name d.componentType d.uniqueName d.controlType))
  | internalVariable d =>
    exact .some (hdiscard (h.attachInternalVariable d.name d.quantity d.key))
  | curveIndex d => exact .some (hdiscard (h.declareCurveIndex d.name d.subject))
  | constructionIndex d => exact .some (hdiscard (h.declareConstructionIndex d.name d.subject))
  | trend d =>
    exact rel_map (h.declareTrend? d.name d.source d.capacity) fun _ _ hr => hdiscard hr
  | program d => exact .some (hdiscard (h.addProgram d.name rfl))
  | subroutine d => exact .some (hdiscard (h.addSubroutine d.name rfl))
  | unknownPoint name => exact .some (h.orRecord (.refused _))
  | bind point program => exact .some (h.bindProgram point program)

end SameController

/-- The steps of a model are taken alike, one after another. -/
theorem declareAll_alike {c c' : Controller} (h : g.SameController c c') (ds : List Declaration) :
    Option.Rel g.SameController
      (ds.foldlM (fun (c : Controller) d => (c.declare? d).map Prod.snd) c)
      (ds.foldlM (fun (c : Controller) d => (c.declare? d).map Prod.snd) c') := by
  induction ds generalizing c c' with
  | nil => exact .some h
  | cons d rest ih =>
    have hd := h.declare? d
    rw [List.foldlM_cons, List.foldlM_cons]
    generalize c.declare? d = x at hd
    generalize c'.declare? d = y at hd
    cases hd with
    | none => exact .none
    | some hr => exact ih hr.2

theorem SameController.withModel? {c c' : Controller} (h : g.SameController c c') (m : Model) :
    Option.Rel g.SameController (c.withModel? m) (c'.withModel? m) :=
  rel_map (declareAll_alike h m.steps) fun _ _ hc => hc.compile

end Erl.Guise
