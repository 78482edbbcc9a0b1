/-
  Erl.Proofs.Controller.Catalogs

  The catalogs of a controller stay consistent.

  What is published is found under its names as long as the controller exists, also by names in
  another letter case, and what is published later under the same names is ignored.  So a request
  for a tie that exists is answered by the variable that was made for it.
-/

import Erl.Proofs.Controller.Links
import Erl.Proofs.Expr.Respelling

namespace Erl

/-! ## Letter case -/

/-- Names in another letter case have the same key. -/
theorem foldedKey_congr {names names' : List String}
    (h : List.Forall₂ (fun n n' => Text.sameName n n' = true) names names') :
    foldedKey names = foldedKey names' := by
  unfold foldedKey
  congr 1
  induction h with
  | nil => rfl
  | @cons n n' _ _ hname _ ih =>
    have hfold : Text.fold n = Text.fold n' := beq_iff_eq.1 hname
    rw [List.map_cons, List.map_cons, ih, Text.fold_trimmed, Text.fold_trimmed, hfold]

/-- Whether a variable may have a name does not depend on letter case. -/
theorem NameFlaw.ofVariable?_fold (name : String) :
    NameFlaw.ofVariable? (Text.fold name) = NameFlaw.ofVariable? name := by
  have hsign : ∀ sign : Char, sign.val.toNat < 65 →
      (name.toList.map Char.toUpper).contains sign = name.toList.contains sign :=
    fun sign hlt => Text.contains_map_toUpper hlt _
  have hdigit : ((name.toList.map Char.toUpper).take 1).any Char.isDigit
      = (name.toList.take 1).any Char.isDigit := by
    rw [← List.map_take, List.any_map]
    exact congrArg (List.any _ ·) (funext Text.isDigit_toUpper)
  unfold ofVariable? ofProgram?
  dsimp only
  rw [Text.toList_fold, hsign ' ' (by decide), hsign '-' (by decide), hsign '+' (by decide),
    hsign '.' (by decide), hdigit, List.isEmpty_map]

theorem NameFlaw.ofVariable?_congr {name name' : String} (h : Text.sameName name name' = true) :
    NameFlaw.ofVariable? name = NameFlaw.ofVariable? name' := by
  rw [← ofVariable?_fold name, ← ofVariable?_fold name', beq_iff_eq.1 h]

/-! ## First publications -/

/-- The point that a request publishes. -/
def Request.point? : Request → Option ControlPoint
  | publishPoint p => some p
  | _ => none

/-- The output that a request publishes. -/
def Request.output? : Request → Option SourcePoint
  | publishOutput p => some p
  | _ => none

/-- The internal variable of the host that a request publishes. -/
def Request.internal? : Request → Option SourcePoint
  | publishInternal p => some p
  | _ => none

section FirstEntries

variable {α : Type} {key : α → String} {xs ys : List α}

/-- Two lists have the same first entries under all keys. -/
def SameFirsts (key : α → String) (xs ys : List α) : Prop :=
  ∀ k, xs.find? (fun a => key a == k) = ys.find? (fun a => key a == k)

/-- An entry is ignored if there is one under its key. -/
theorem SameFirsts.ignore (h : SameFirsts key xs ys) {a : α} {i : Nat}
    (ha : xs.findIdx? (fun b => key b == key a) = some i) : SameFirsts key xs (ys ++ [a]) := by
  intro k
  rw [List.find?_append, ← h k]
  by_cases hk : key a = k
  · -- under its own key there is one before it
    obtain ⟨hlt, hmatch, -⟩ := List.findIdx?_eq_some_iff_getElem.1 ha
    have hsome : (xs.find? fun b => key b == k).isSome = true :=
      List.find?_isSome.2 ⟨_, List.getElem_mem hlt, hk ▸ hmatch⟩
    obtain ⟨b, hb⟩ := Option.isSome_iff_exists.1 hsome
    rw [hb]
    rfl
  · simp [hk]

/-- An entry under a new key is the first one. -/
theorem SameFirsts.append (h : SameFirsts key xs ys) (a : α) :
    SameFirsts key (xs ++ [a]) (ys ++ [a]) := by
  intro k
  rw [List.find?_append, List.find?_append, h k]

variable {t : Catalog key}

theorem Catalog.find?_eq_findIdx?_toList (t : Catalog key) (k : String) :
    t.find? k = t.entries.toList.findIdx? fun a => key a == k := by
  rw [← List.findIdx?_toArray, Array.toArray_toList]
  exact t.find?_eq fun _ => beq_iff_eq

/-- A catalog holds the first entries of all that it was offered. -/
theorem SameFirsts.enter (h : SameFirsts key t.entries.toList ys) (a : α) :
    SameFirsts key (t.enter a).2.entries.toList (ys ++ [a]) := by
  rcases t.enter_cases a with ⟨i, hfound, heq⟩ | ⟨-, heq⟩
  · rw [t.find?_eq_findIdx?_toList] at hfound
    rw [heq]
    exact h.ignore hfound
  · rw [heq, Catalog.entries_push, Array.toList_push]
    exact h.append a

/-- The index leads to the first of the entries under a key. -/
theorem SameFirsts.get? (h : SameFirsts key t.entries.toList ys) (k : String) :
    (t.index.get? k).bind (t.entries[·]?) = ys.find? fun a => key a == k := by
  rw [← h k, Array.find?_toList, Array.find?_eq_bind_findIdx?_getElem?]
  exact congrArg (Option.bind · _) (t.find?_eq fun _ => beq_iff_eq)

end FirstEntries

namespace Exchange

/-- Under each key the catalogs hold the first of what was published. -/
structure Catalogued (b : Exchange) (points : List ControlPoint)
    (outputs internals : List SourcePoint) : Prop where
  points : SameFirsts ControlPoint.foldedKey (b.points.toList.map ControlPoint.released)
    (points.map ControlPoint.released)
  outputs : SameFirsts SourcePoint.foldedKey b.outputs.toList outputs
  internals : SameFirsts SourcePoint.foldedKey b.internals.toList internals

namespace Catalogued

variable {b b' : Exchange} {points : List ControlPoint} {outputs internals : List SourcePoint}

theorem publishPoint (h : b.Catalogued points outputs internals) (p : ControlPoint) :
    (b.publishPoint p).2.Catalogued (points ++ [p]) outputs internals := by
  refine ⟨?_, h.outputs, h.internals⟩
  show SameFirsts _ ((b.pointCatalog.enter p).2.entries.toList.map ControlPoint.released) _
  rcases b.pointCatalog.enter_cases p with ⟨i, hfound, heq⟩ | ⟨-, heq⟩
  · have hfound' : b.findPoint? p.componentType p.uniqueName p.controlType = some i := hfound
    rw [findPoint?_eq] at hfound'
    rw [heq, List.map_append]
    exact h.points.ignore hfound'
  · rw [heq, Catalog.entries_push, Array.toList_push, List.map_append, List.map_append]
    exact h.points.append p.released

theorem publishOutput (h : b.Catalogued points outputs internals) (p : SourcePoint) :
    (b.publishOutput p).Catalogued points (outputs ++ [p]) internals :=
  ⟨h.points, h.outputs.enter p, h.internals⟩

theorem publishInternal (h : b.Catalogued points outputs internals) (p : SourcePoint) :
    (b.publishInternal p).Catalogued points outputs (internals ++ [p]) :=
  ⟨h.points, h.outputs, h.internals.enter p⟩

/-- As long as nothing but flags changes, the catalogs hold the same. -/
theorem congr (h : b.Catalogued points outputs internals)
    (hpoints : b'.points.map ControlPoint.released = b.points.map ControlPoint.released)
    (houtputs : b'.outputs = b.outputs) (hinternals : b'.internals = b.internals) :
    b'.Catalogued points outputs internals := by
  refine ⟨?_, houtputs ▸ h.outputs, hinternals ▸ h.internals⟩
  rw [← Array.toList_map, hpoints, Array.toList_map]
  exact h.points

/-- The index of points leads to what was published first under a key, apart from its flag. -/
theorem pointIndex (h : b.Catalogued points outputs internals) (key : String) :
    ((b.pointCatalog.index.get? key).bind (b.points[·]?)).map ControlPoint.released
      = (points.find? fun p => p.foldedKey == key).map ControlPoint.released := by
  have hself : SameFirsts ControlPoint.foldedKey b.points.toList b.points.toList := fun _ => rfl
  have hfirst := h.points key
  rw [List.find?_map, List.find?_map] at hfirst
  rw [hself.get?]
  exact hfirst

end Catalogued

end Exchange

namespace Controller

variable {c c' : Controller}

/-- What has been published is what the catalogs were made from. -/
theorem catalogued_ask? {requests : List Request} {request : Request} {answer : Answer}
    (h : c.exchange.Catalogued (requests.filterMap Request.point?)
      (requests.filterMap Request.output?) (requests.filterMap Request.internal?))
    (hask : c.ask? request = some (answer, c')) :
    c'.exchange.Catalogued ((requests ++ [request]).filterMap Request.point?)
      ((requests ++ [request]).filterMap Request.output?)
      ((requests ++ [request]).filterMap Request.internal?) := by
  -- a request adds to one of the catalogs or to none
  have hadded : ∀ {α : Type} (f : Request → Option α),
      (requests ++ [request]).filterMap f = requests.filterMap f ++ (f request).toList := by
    intro α f
    cases hf : f request <;> simp [hf]
  rw [hadded, hadded, hadded]
  by_cases hdeed : request.deed = .prepare
  · -- what only prepares adds nothing on either side
    have hnone : request.point? = none ∧ request.output? = none ∧ request.internal? = none := by
      cases request <;> first | exact ⟨rfl, rfl, rfl⟩ | cases hdeed
    obtain ⟨hpoints, houtputs, hinternals⟩ := (ask?_prepares hask hdeed).published
    simpa [hnone] using h.congr (by rw [hpoints]) houtputs hinternals
  · cases request with
    | publishPoint p =>
      cases hask
      simpa [publishPoint, Request.point?, Request.output?, Request.internal?] using
        h.publishPoint p
    | publishOutput p =>
      cases hask
      simpa [publishOutput, Request.point?, Request.output?, Request.internal?] using
        h.publishOutput p
    | publishInternal p =>
      cases hask
      simpa [publishInternal, Request.point?, Request.output?, Request.internal?] using
        h.publishInternal p
    | run point =>
      -- a run may set flags, which are left out of the comparison
      cases hask
      have hruns := c.run_runsTo point
      obtain ⟨pointCatalog, -, hexchange⟩ := hruns.exchange
      simpa [Request.point?, Request.output?, Request.internal?] using
        h.congr hruns.released (by rw [hexchange]) (by rw [hexchange])
    | _ => exact absurd rfl hdeed

theorem catalogued_askEach? {requests more : List Request} {answers : List Answer}
    (h : c.exchange.Catalogued (requests.filterMap Request.point?)
      (requests.filterMap Request.output?) (requests.filterMap Request.internal?))
    (hasks : c.askEach? more = some (answers, c')) :
    c'.exchange.Catalogued ((requests ++ more).filterMap Request.point?)
      ((requests ++ more).filterMap Request.output?)
      ((requests ++ more).filterMap Request.internal?) := by
  induction more generalizing c requests answers with
  | nil =>
    cases hasks
    rw [List.append_nil]
    exact h
  | cons request rest ih =>
    obtain ⟨answer, answers', c₁, hfirst, hrest, -⟩ := askEach?_cons hasks
    have hsplit : requests ++ request :: rest = requests ++ [request] ++ rest := by simp
    rw [hsplit]
    exact ih (catalogued_ask? h hfirst) hrest

/-! ## Repeated requests -/

/-- What is answered without a problem was not refused. -/
theorem orRecord_ok {α : Type} {attempt : Except ModelProblem (α × Controller)} {a : α}
    (h : c.orRecord attempt = (.ok a, c')) : attempt = .ok (a, c') := by
  cases attempt with
  | error problem => cases h
  | ok r =>
    cases h
    rfl

/-- A name that is not refused has no flaw. -/
theorem checkName_ok {entity : Entity} {name : String} {u : Unit}
    (h : checkName entity name = .ok u) : NameFlaw.ofVariable? name = none := by
  unfold checkName at h
  split at h
  · cases h
  · next hnone => exact hnone

/-- A controlled point is used by an actuator of a name, which drives it by a variable. -/
structure HasActuator (c : Controller) (name componentType uniqueName controlType : String)
    (id : VariableId) : Prop where
  named : NameFlaw.ofVariable? name = none
  tied : ∃ available k tie,
    c.exchange.findPoint? componentType uniqueName controlType = some available
      ∧ c.exchange.actuatorOf? available = some k ∧ c.exchange.actuators[k]? = some tie
      ∧ Text.sameName tie.name name = true ∧ tie.target = id

namespace HasActuator

variable {name componentType uniqueName controlType : String} {id : VariableId}

/-- A request that succeeds leaves an actuator. -/
theorem of_attach
    (h : c.attachActuator name componentType uniqueName controlType = (.ok id, c')) :
    c'.HasActuator name componentType uniqueName controlType id := by
  obtain ⟨_, hcheck, h⟩ := attempt_bind (orRecord_ok h)
  refine ⟨checkName_ok hcheck, ?_⟩
  split at h
  · cases h
  · next available hfound =>
    split at h
    · next hnone =>
      have hunused := Exchange.actuatorOf?_eq_none hnone
      obtain ⟨-, heq⟩ := attemptActuator_ok hunused h
      cases heq
      have hpushed := Catalog.find?_push_of_none (t := c.exchange.actuatorCatalog)
        (a := ⟨name, c.machine.store.size, available⟩) hunused
      exact ⟨available, c.exchange.actuators.size, _, hfound, hpushed, Array.getElem?_push_size,
        Text.sameName_self name, rfl⟩
    · -- a point that is used already has the actuator, or the request is refused
      next used hused =>
      obtain ⟨k, hk, htie⟩ := Option.bind_eq_some_iff.1 hused
      split at h
      · next hname =>
        cases h
        exact ⟨available, k, used, hfound, hk, htie, hname, rfl⟩
      · cases h

/-- An actuator that exists is what a request for it is answered by. -/
theorem attach (h : c.HasActuator name componentType uniqueName controlType id) :
    c.attachActuator name componentType uniqueName controlType = (.ok id, c) := by
  obtain ⟨hnamed, available, k, tie, hfound, hused, htie, hname, rfl⟩ := h
  simp [attachActuator, checkName, hnamed, hfound, hused, htie, hname, orRecord, bind, Except.bind,
    pure, Except.pure]

theorem later (h : c.HasActuator name componentType uniqueName controlType id)
    (hlater : Later c c') : c'.HasActuator name componentType uniqueName controlType id := by
  obtain ⟨hnamed, available, k, tie, hfound, hused, htie, hname, htarget⟩ := h
  have hextends := hlater.extends
  exact ⟨hnamed, available, k, tie, hextends.findPoint? hfound,
    find?_of_extends hextends.actuators hused, getElem?_of_extends hextends.actuators htie,
    hname, htarget⟩

/-- An actuator is known by its names in any letter case. -/
theorem respell (h : c.HasActuator name componentType uniqueName controlType id)
    {name' componentType' uniqueName' controlType' : String}
    (hname : Text.sameName name name' = true)
    (hkey : List.Forall₂ (fun n n' => Text.sameName n n' = true)
      [componentType, uniqueName, controlType] [componentType', uniqueName', controlType']) :
    c.HasActuator name' componentType' uniqueName' controlType' id := by
  obtain ⟨hnamed, available, k, tie, hfound, hused, htie, htied, htarget⟩ := h
  refine ⟨(NameFlaw.ofVariable?_congr hname).symm.trans hnamed, available, k, tie, ?_, hused, htie,
    ?_, htarget⟩
  · rw [Exchange.findPoint?, ← foldedKey_congr hkey]
    exact hfound
  · exact beq_iff_eq.2 ((beq_iff_eq.1 htied).trans (beq_iff_eq.1 hname))

end HasActuator

/-- A variable is tied to a source exactly if there is a tie with these ends. -/
theorem isTied_iff {ties : Array Tie} {target : VariableId} {available : Nat} :
    Exchange.isTied ties target available = true
      ↔ ∃ tie ∈ ties, tie.ends = (available, target) := by
  rw [Exchange.isTied, ← Array.any_toList, List.any_eq_true]
  simp [Tie.ends]

/-- A tie that is offered to a catalog is made, or there is one with its ends. -/
theorem isTied_enter (t : Catalog Tie.ends) (tie : Tie) :
    Exchange.isTied (t.enter tie).2.entries tie.target tie.available = true :=
  have ⟨other, hother, hends⟩ := Catalog.exists_of_find? (t.find?_enter tie)
  isTied_iff.2 ⟨other, Array.mem_of_getElem? hother, hends⟩

/-- A global of a name is tied to a source, for sources and ties of a kind. -/
structure HasSource (c : Controller) (sources : Catalog SourcePoint.foldedKey) (ties : Array Tie)
    (name quantity key : String) (id : VariableId) : Prop where
  named : NameFlaw.ofVariable? name = none
  tied : ∃ available, sources.find? (foldedKey [quantity, key]) = some available
    ∧ c.tiedGlobal? ties name available = some id

namespace HasSource

variable {sources : Catalog SourcePoint.foldedKey} {ties : Array Tie}
  {name quantity key : String} {id : VariableId}

/-- A source that is tied stays tied. -/
theorem later (h : c.HasSource sources ties name quantity key id) (hlater : Later c c')
    {sources' : Catalog SourcePoint.foldedKey} {ties' : Array Tie}
    (hsources : sources.entries.toList <+: sources'.entries.toList)
    (hties : ties.toList <+: ties'.toList) :
    c'.HasSource sources' ties' name quantity key id := by
  obtain ⟨hnamed, available, hfound, htied⟩ := h
  -- the global keeps its position, and the tie to it stays in the catalog
  obtain ⟨hglobal, htie⟩ := Option.filter_eq_some_iff.1 htied
  obtain ⟨tie, hmem, hends⟩ := isTied_iff.1 htie
  refine ⟨hnamed, available, find?_of_extends hsources hfound,
    Option.filter_eq_some_iff.2 ⟨hlater.lasts.find? hglobal, isTied_iff.2 ⟨tie, ?_, hends⟩⟩⟩
  exact Array.mem_toList_iff.1 (hties.subset (Array.mem_toList_iff.2 hmem))

/-- A source is known by its names in any letter case. -/
theorem respell (h : c.HasSource sources ties name quantity key id)
    {name' quantity' key' : String} (hname : Text.sameName name name' = true)
    (hkey : List.Forall₂ (fun n n' => Text.sameName n n' = true) [quantity, key]
      [quantity', key']) :
    c.HasSource sources ties name' quantity' key' id := by
  obtain ⟨hnamed, available, hfound, htied⟩ := h
  refine ⟨(NameFlaw.ofVariable?_congr hname).symm.trans hnamed, available, ?_, ?_⟩
  · rw [← foldedKey_congr hkey]
    exact hfound
  · rw [tiedGlobal?, Store.global?, ← Store.find?_congr _ _ hname]
    exact htied

/-- After a new global was tied, it is tied. -/
theorem of_push {origin : Origin} {b : Exchange} {available : Nat}
    (hnamed : NameFlaw.ofVariable? name = none)
    (hfound : sources.find? (foldedKey [quantity, key]) = some available)
    (hnew : c.machine.store.global? name = none)
    (htie : Exchange.isTied ties c.machine.store.size available = true) :
    HasSource { c.withStore (c.machine.store.push name .global origin) with exchange := b }
      sources ties name quantity key c.machine.store.size := by
  refine ⟨hnamed, available, hfound, Option.filter_eq_some_iff.2 ⟨?_, htie⟩⟩
  show (c.machine.store.push name .global origin).find? .global name = _
  rw [Store.find?_push, show c.machine.store.find? .global name = none from hnew]
  simp [Text.sameName_self]

end HasSource

section Sources

variable {name quantity key : String} {id : VariableId}

theorem hasSource_of_attachSensor (h : c.attachSensor name quantity key = (.ok id, c')) :
    c'.HasSource c'.exchange.outputCatalog c'.exchange.sensors name quantity key id := by
  obtain ⟨_, hcheck, h⟩ := attempt_bind (orRecord_ok h)
  have hnamed := checkName_ok hcheck
  split at h
  · cases h
  · next available hfound =>
    split at h
    · next htied =>
      cases h
      exact ⟨hnamed, available, hfound, htied⟩
    · obtain ⟨r, hnew, h⟩ := attempt_bind h
      obtain ⟨hname, rfl⟩ := attemptVariable_ok hnew
      cases h
      exact .of_push hnamed hfound hname (isTied_enter c.exchange.sensorCatalog _)

theorem HasSource.attachSensor
    (h : c.HasSource c.exchange.outputCatalog c.exchange.sensors name quantity key id) :
    c.attachSensor name quantity key = (.ok id, c) := by
  obtain ⟨hnamed, available, hfound, htied⟩ := h
  simp [Controller.attachSensor, checkName, hnamed, Exchange.findOutput?, hfound, htied, orRecord,
    bind, Except.bind, pure, Except.pure]

theorem hasSource_of_attachInternalVariable
    (h : c.attachInternalVariable name quantity key = (.ok id, c')) :
    c'.HasSource c'.exchange.internalCatalog c'.exchange.internalVariables name quantity key
      id := by
  obtain ⟨_, hcheck, h⟩ := attempt_bind (orRecord_ok h)
  have hnamed := checkName_ok hcheck
  split at h
  · cases h
  · next available hfound =>
    split at h
    · next htied =>
      cases h
      exact ⟨hnamed, available, hfound, htied⟩
    · obtain ⟨r, hnew, h⟩ := attempt_bind h
      obtain ⟨hname, rfl⟩ := attemptVariable_ok hnew
      cases h
      exact .of_push hnamed hfound hname (isTied_enter c.exchange.internalVariableCatalog _)

theorem HasSource.attachInternalVariable
    (h : c.HasSource c.exchange.internalCatalog c.exchange.internalVariables name quantity key id) :
    c.attachInternalVariable name quantity key = (.ok id, c) := by
  obtain ⟨hnamed, available, hfound, htied⟩ := h
  simp [Controller.attachInternalVariable, checkName, hnamed, Exchange.findInternal?, hfound,
    htied, orRecord, bind, Except.bind, pure, Except.pure]

end Sources

end Controller

/-- Requests for the same tie, with names in different letter case. -/
inductive Request.Respells : Request → Request → Prop where
  | actuator {name name' componentType componentType' uniqueName uniqueName' controlType
      controlType' : String} :
      Text.sameName name name' = true → Text.sameName componentType componentType' = true →
      Text.sameName uniqueName uniqueName' = true →
      Text.sameName controlType controlType' = true →
      Respells (.attachActuator name componentType uniqueName controlType)
        (.attachActuator name' componentType' uniqueName' controlType')
  | sensor {name name' quantity quantity' key key' : String} :
      Text.sameName name name' = true → Text.sameName quantity quantity' = true →
      Text.sameName key key' = true →
      Respells (.attachSensor name quantity key) (.attachSensor name' quantity' key')
  | internalVariable {name name' quantity quantity' key key' : String} :
      Text.sameName name name' = true → Text.sameName quantity quantity' = true →
      Text.sameName key key' = true →
      Respells (.attachInternalVariable name quantity key)
        (.attachInternalVariable name' quantity' key')

namespace Controller

variable {c c' c₁ : Controller}

/-- A declaration that is answered without a problem. -/
theorem declared_ok {result : Except ModelProblem Nat × Controller} {id : Nat}
    (h : some (ask?.declared result) = some (.declared (.ok id), c')) : result = (.ok id, c') := by
  obtain ⟨answer, made⟩ := result
  cases h
  rfl

/-- A request for a tie that was made is answered as the first time, and changes nothing. -/
theorem ask?_again {request request' : Request} (hrespells : request.Respells request')
    {id : VariableId} (hfirst : c.ask? request = some (.declared (.ok id), c₁))
    (hlater : Later c₁ c') : c'.ask? request' = some (.declared (.ok id), c') := by
  have hextends := hlater.extends
  cases hrespells with
  | actuator hname hcomponent hunique hcontrol =>
    have hhas := (HasActuator.of_attach (declared_ok hfirst)).later hlater
    have hagain := (hhas.respell hname
      (.cons hcomponent (.cons hunique (.cons hcontrol .nil)))).attach
    rw [Controller.ask?, hagain]
    rfl
  | sensor hname hquantity hkey =>
    have hhas := (hasSource_of_attachSensor (declared_ok hfirst)).later hlater hextends.outputs
      hextends.sensors
    have hagain := (hhas.respell hname (.cons hquantity (.cons hkey .nil))).attachSensor
    rw [Controller.ask?, hagain]
    rfl
  | internalVariable hname hquantity hkey =>
    have hhas := (hasSource_of_attachInternalVariable (declared_ok hfirst)).later hlater
      hextends.internals hextends.internalVariables
    have hagain := (hhas.respell hname (.cons hquantity (.cons hkey .nil))).attachInternalVariable
    rw [Controller.ask?, hagain]
    rfl

/-! ## Consistency -/

/-- The catalogs stay consistent, whatever is asked of a controller and however it is answered.

    Every tie leads to something published and to a global of the right origin, no two actuators
    use one point, no two ties of any kind lead to one variable, and a variable drives an actuator
    exactly if that leads back to it.  Each of the six indexes leads from a key to the one entry
    under it, and from a key of something published to what was published first under it, apart
    from the flag of a controlled point.  A request for a tie that was made once is answered by the
    same variable at any later time, in any letter case, and changes nothing. -/
theorem catalogs_consistent {settings : Settings} {stream : RandomStream}
    {requests : List Request} {answers : List Answer} {c : Controller}
    (h : (ofSettings settings stream).askEach? requests = some (answers, c)) :
    c.Consistent
      ∧ (∀ key,
          ((c.exchange.pointCatalog.index.get? key).bind (c.exchange.points[·]?)).map
              ControlPoint.released
            = ((requests.filterMap Request.point?).find? fun p => p.foldedKey == key).map
                ControlPoint.released)
      ∧ (∀ key,
          (c.exchange.outputCatalog.index.get? key).bind (c.exchange.outputs[·]?)
            = (requests.filterMap Request.output?).find? fun p => p.foldedKey == key)
      ∧ (∀ key,
          (c.exchange.internalCatalog.index.get? key).bind (c.exchange.internals[·]?)
            = (requests.filterMap Request.internal?).find? fun p => p.foldedKey == key)
      ∧ ∀ (request request' : Request) (id : VariableId) (c₁ c₂ : Controller)
          (more : List Request) (answers' : List Answer), request.Respells request' →
          c.ask? request = some (.declared (.ok id), c₁) →
          c₁.askEach? more = some (answers', c₂) →
          c₂.ask? request' = some (.declared (.ok id), c₂) := by
  have hreach : Reachable c := (Reachable.ofSettings settings stream).later (askEach?_later h)
  have hempty : (ofSettings settings stream).exchange.Catalogued (([] : List Request).filterMap
      Request.point?) (([] : List Request).filterMap Request.output?)
      (([] : List Request).filterMap Request.internal?) :=
    ⟨fun _ => rfl, fun _ => rfl, fun _ => rfl⟩
  have hcatalogued := catalogued_askEach? hempty h
  rw [List.nil_append] at hcatalogued
  refine ⟨hreach.consistent, hcatalogued.pointIndex, hcatalogued.outputs.get?,
    hcatalogued.internals.get?, ?_⟩
  intro request request' id c₁ c₂ more answers' hrespells hfirst hmore
  exact ask?_again hrespells hfirst (askEach?_later hmore)

/-- Requests that publish a point and an output twice in different letter case, tie variables to
    them, and are refused a second actuator. -/
def tiedTwice : List Request :=
  [.addCell (.real 0.0), .addCell (.real 1.0),
    .publishPoint ⟨"Fan", "Supply", "Speed", "W", .real, 0, false⟩,
    .publishPoint ⟨"FAN ", "supply", "speed", "", .logical, 1, true⟩,
    .publishOutput ⟨"Temperature", "Room", "C", 1⟩,
    .attachSensor "T" "temperature" "room",
    .attachActuator "speed" "Fan" "Supply" "Speed",
    .attachActuator "other" "Fan" "Supply" "Speed"]

theorem catalogs_consistent_tiedTwice :
    ∃ answers c c₁,
      (ofSettings .default .zero).askEach? tiedTwice = some (answers, c) ∧ c.Consistent
        ∧ c.exchange.actuators = #[⟨"speed", 17, 0⟩] ∧ c.exchange.sensors = #[⟨"T", 16, 0⟩]
        ∧ c.problems = [.actuatorNameConflict "speed" "other"]
        ∧ ((c.exchange.findPoint? "fan" "SUPPLY" "speed").bind
              (c.exchange.points[·]?)).map ControlPoint.released
            = some ⟨"Fan", "Supply", "Speed", "W", .real, 0, false⟩
        ∧ c.ask? (.attachActuator "Speed" "Fan" "Supply" "Speed")
            = some (.declared (.ok 17), c₁)
        ∧ ∀ more answers' c₂, c₁.askEach? more = some (answers', c₂) →
            c₂.ask? (.attachActuator "SPEED" "fan" "SUPPLY" "speed")
              = some (.declared (.ok 17), c₂) := by
  -- one evaluation of the requests gives all that is said about where they lead
  have hmade : ((ofSettings .default .zero).askEach? tiedTwice).map (fun r =>
      (r.2.exchange.actuators, r.2.exchange.sensors, r.2.problems,
        (r.2.attachActuator "Speed" "Fan" "Supply" "Speed").1))
      = some (#[⟨"speed", 17, 0⟩], #[⟨"T", 16, 0⟩], [.actuatorNameConflict "speed" "other"],
          .ok 17) := by
    decide +kernel
  have hfirst : ((tiedTwice.filterMap Request.point?).find? fun p =>
      p.foldedKey == foldedKey ["fan", "SUPPLY", "speed"]).map ControlPoint.released
      = some ⟨"Fan", "Supply", "Speed", "W", .real, 0, false⟩ := by
    decide +kernel
  obtain ⟨⟨answers, c⟩, hasks, heq⟩ := Option.map_eq_some_iff.1 hmade
  simp only [Prod.mk.injEq] at heq
  obtain ⟨hactuators, hsensors, hproblems, hagain⟩ := heq
  obtain ⟨hconsistent, hpoints, -, -, hrepeat⟩ := catalogs_consistent hasks
  have hask : c.ask? (.attachActuator "Speed" "Fan" "Supply" "Speed")
      = some (.declared (.ok 17), (c.attachActuator "Speed" "Fan" "Supply" "Speed").2) := by
    rw [ask?, ask?.declared, hagain]
  refine ⟨answers, c, _, hasks, hconsistent, hactuators, hsensors, hproblems,
    (hpoints _).trans hfirst, hask, fun more answers' c₂ hmore => ?_⟩
  exact hrepeat _ _ 17 _ c₂ more answers'
    (.actuator (by decide) (by decide) (by decide) (by decide)) hask hmore

end Controller

end Erl
