/-
  Erl.Proofs.Controller.Ties

  What variables are tied to.

  A tie is made together with the variable that it leads to, and leads to something published.
  So the variables of sensors are sensors and nothing else, no variable has two ties, and since
  a controlled point that is used is not tied again, no point has two actuators.
-/

import Erl.Proofs.Controller.WellFormed

namespace Erl

/-! ## Ties of one kind -/

/-- Ties of variables of an origin to published things: each leads to one of them, and no two
    lead to the same variable. -/
structure Tied (store : Store) (origin : Origin) (published : Nat) (ties : Array Tie) : Prop where
  leads : ∀ tie ∈ ties, tie.available < published
  origin : ∀ tie ∈ ties, store.origin? tie.target = some origin
  distinct : (ties.toList.map Tie.target).Nodup

namespace Tied

variable {store store' : Store} {origin : Origin} {published published' : Nat}
  {ties : Array Tie}

theorem empty (store : Store) (origin : Origin) : Tied store origin 0 #[] :=
  ⟨by simp, by simp, List.nodup_nil⟩

/-- Ties hold when variables are added and more is published. -/
theorem mono (h : Tied store origin published ties) (hstore : store.Keeps store')
    (hpublished : published ≤ published') : Tied store' origin published' ties :=
  ⟨fun tie htie => Nat.lt_of_lt_of_le (h.leads tie htie) hpublished,
    fun tie htie => hstore _ _ (h.origin tie htie), h.distinct⟩

/-- A variable that is added may be tied. -/
theorem push (h : Tied store origin published ties) {x : Variable} (hx : x.origin = origin)
    (name : String) {available : Nat} (hlt : available < published) :
    Tied (store.add x) origin published (ties.push ⟨name, store.size, available⟩) := by
  have hold := h.mono (Store.Grows.add store x).keeps (Nat.le_refl published)
  refine ⟨?_, ?_, ?_⟩
  · intro tie htie
    rcases Array.mem_push.1 htie with hmem | rfl
    · exact h.leads tie hmem
    · exact hlt
  · intro tie htie
    rcases Array.mem_push.1 htie with hmem | rfl
    · exact hold.origin tie hmem
    · show ((store.add x).get? store.size).map Variable.origin = some origin
      rw [Store.get?_add, if_pos rfl, ← hx]
      rfl
  · rw [Array.toList_push, List.map_append, List.map_singleton]
    refine List.nodup_append.2 ⟨h.distinct, by simp, ?_⟩
    -- the variables of the other ties existed before
    intro target htarget _ hnew
    obtain ⟨tie, htie, rfl⟩ := List.mem_map.1 htarget
    have hlt' : tie.target < store.size :=
      Store.lt_size_of_origin? (h.origin tie (Array.mem_toList_iff.1 htie))
    rw [List.mem_singleton.1 hnew]
    exact Nat.ne_of_lt hlt'

/-- Ties of one origin do not lead to a variable of another. -/
theorem target_ne (h : Tied store origin published ties) {id : VariableId} {o : Origin}
    (ho : store.origin? id = some o) (hne : o ≠ origin) : ∀ tie ∈ ties, tie.target ≠ id := by
  rintro tie htie rfl
  have heq := h.origin tie htie
  rw [ho] at heq
  exact hne (Option.some.inj heq)

/-- None of the ties leads nowhere. -/
theorem lead (h : Tied store origin published ties) : Exchange.lead ties published = true := by
  refine Array.all_eq_true_iff_forall_mem.2 fun tie htie => ?_
  simpa using h.leads tie htie

end Tied

/-! ## All ties -/

namespace Controller

variable {c c' : Controller}

/-- All ties lead to something published and to variables of the right origin, and no two
    actuators use the same point. -/
structure TiesHold (c : Controller) : Prop where
  sensors : Tied c.machine.store .sensor c.exchange.outputs.size c.exchange.sensors
  internalVariables :
    Tied c.machine.store .internalVariable c.exchange.internals.size c.exchange.internalVariables
  actuators : Tied c.machine.store .actuator c.exchange.points.size c.exchange.actuators
  unshared : (c.exchange.actuators.toList.map Tie.available).Nodup

theorem tiesHold_ofSettings (settings : Settings) (stream : RandomStream) :
    (ofSettings settings stream).TiesHold :=
  ⟨.empty _ _, .empty _ _, .empty _ _, List.nodup_nil⟩

namespace TiesHold

/-- Ties hold as long as the same things are published and variables are not taken back. -/
theorem congr (h : c.TiesHold) (hstore : c.machine.store.Keeps c'.machine.store)
    {pointCatalog : Catalog ControlPoint.foldedKey}
    (hpoints : pointCatalog.entries.size = c.exchange.points.size)
    (hexchange : c'.exchange = { c.exchange with pointCatalog }) : c'.TiesHold := by
  refine ⟨?_, ?_, ?_, ?_⟩ <;> rw [hexchange]
  · exact h.sensors.mono hstore (Nat.le_refl _)
  · exact h.internalVariables.mono hstore (Nat.le_refl _)
  · exact h.actuators.mono hstore (Nat.le_of_eq hpoints.symm)
  · exact h.unshared

theorem publish (h : c.TiesHold) {b : Exchange} (hb : c.exchange.Publishes b) :
    TiesHold { c with exchange := b } := by
  cases hb with
  | point _ =>
    exact ⟨h.sensors, h.internalVariables,
      h.actuators.mono (.refl _) (c.exchange.pointCatalog.size_le_push _), h.unshared⟩
  | output _ =>
    exact ⟨h.sensors.mono (.refl _) (c.exchange.outputCatalog.size_le_push _),
      h.internalVariables, h.actuators, h.unshared⟩
  | internal _ =>
    exact ⟨h.sensors,
      h.internalVariables.mono (.refl _) (c.exchange.internalCatalog.size_le_push _), h.actuators,
      h.unshared⟩

/-- A variable that is added may be tied to something published; a point is tied only if no
    actuator uses it. -/
theorem addVariable (h : c.TiesHold) {x : Variable} {b : Exchange}
    (hb : c.exchange.Ties c.machine.store.size x.origin x.actuator b) :
    TiesHold { c.withStore (c.machine.store.add x) with exchange := b } := by
  have hkeeps : c.machine.store.Keeps (c.machine.store.add x) := (Store.Grows.add _ x).keeps
  have hsensors := h.sensors.mono hkeeps (Nat.le_refl _)
  have hinternals := h.internalVariables.mono hkeeps (Nat.le_refl _)
  have hactuators := h.actuators.mono hkeeps (Nat.le_refl _)
  generalize hx : x.origin = origin at hb
  generalize x.actuator = link at hb
  cases hb with
  | none => exact ⟨hsensors, hinternals, hactuators, h.unshared⟩
  | sensor name hlt => exact ⟨h.sensors.push hx name hlt, hinternals, hactuators, h.unshared⟩
  | internalVariable name hlt =>
    exact ⟨hsensors, h.internalVariables.push hx name hlt, hactuators, h.unshared⟩
  | @actuator name available hlt hunused =>
    refine ⟨hsensors, hinternals, h.actuators.push hx name hlt, ?_⟩
    change ((c.exchange.actuators.push _).toList.map Tie.available).Nodup
    rw [Array.toList_push, List.map_append, List.map_singleton]
    refine List.nodup_append.2 ⟨h.unshared, by simp, ?_⟩
    intro used hused _ hnew
    obtain ⟨tie, htie, rfl⟩ := List.mem_map.1 hused
    rw [List.mem_singleton.1 hnew]
    exact Catalog.key_ne_of_find? hunused tie (Array.mem_toList_iff.1 htie)

end TiesHold

/-- A run changes nothing but the controlled points of what is published. -/
theorem RunsTo.exchange {point : CallingPoint} {r : Except RunError (List Outcome)}
    (h : RunsTo c point r c') :
    ∃ pointCatalog : Catalog ControlPoint.foldedKey,
      pointCatalog.entries.size = c.exchange.points.size
        ∧ c'.exchange = { c.exchange with pointCatalog } := by
  cases h with
  | @done store outcomes m commands _ _ _ =>
    exact c.exchange.performAllOn_eq Exchange.writeCell c.cells commands
  | _ => exact ⟨c.exchange.pointCatalog, rfl, rfl⟩

/-- Whatever a host does, ties hold. -/
theorem Does.tiesHold (h : Does c c') (hc : c.TiesHold) : c'.TiesHold := by
  have hstore := h.keeps
  obtain ⟨_, heffect⟩ := h.effect
  cases heffect with
  | publish hb => exact hc.publish hb
  | addVariable _ _ hb => exact hc.addVariable hb
  | run point =>
    obtain ⟨pointCatalog, hsize, hexchange⟩ := (c.run_runsTo point).exchange
    exact hc.congr hstore hsize hexchange
  | host routines curves cells constructions => exact hc.congr hstore rfl rfl
  | refuse problem => exact hc.congr hstore rfl rfl
  | assign v _ => exact hc.congr hstore rfl rfl
  | updateClock clock => exact hc.congr hstore rfl rfl
  | addTrend _ => exact hc.congr hstore rfl rfl
  | addProgram _ _ => exact hc.congr hstore rfl rfl
  | bind point _ => exact hc.congr hstore rfl rfl
  | compile => exact hc.congr hstore rfl rfl

theorem Reachable.tiesHold (h : Reachable c) : c.TiesHold := by
  induction h with
  | ofSettings settings stream => exact tiesHold_ofSettings settings stream
  | does _ hdoes ih => exact hdoes.tiesHold ih

/-- A run that may start reads all sources. -/
theorem TiesHold.refresh? (h : c.TiesHold) :
    c.exchange.refresh? c.cells c.machine.store
      = some (c.exchange.refresh c.cells c.machine.store) := by
  rw [Exchange.refresh?, h.sensors.lead, h.internalVariables.lead]
  rfl

/-- A run that ends regularly carries out all actuators. -/
theorem TiesHold.commands? (h : c.TiesHold) (store : Store) :
    c.exchange.commands? store = some (c.exchange.commands store) := by
  rw [Exchange.commands?, h.actuators.lead]
  rfl

end Controller

end Erl
