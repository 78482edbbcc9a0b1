/-
  Erl.Proofs.Controller.Links

  Ties and variables lead to each other.

  A tie and the variable that it leads to are made together, and neither is taken back.  So ties
  lead to globals that were made for them, a variable drives an actuator exactly if that leads back
  to it, and no variable has two ties of any kind.
-/

import Erl.Proofs.Controller.Lasting

namespace Erl

/-! ## Ties and variables -/

/-- Variables that are added drive no actuator. -/
def Store.AddsUnlinked (t t' : Store) : Prop :=
  ∀ (id : VariableId) (x : Variable), t.get? id = none → t'.get? id = some x → x.actuator = none

/-- Where no variable is added, none that drives an actuator is. -/
theorem Store.AddsUnlinked.of_origin?_eq {t t' : Store} (h : ∀ id, t'.origin? id = t.origin? id) :
    t.AddsUnlinked t' := by
  intro id x hnone hx
  have hid := h id
  rw [origin?, origin?, hnone, hx] at hid
  cases hid

theorem Store.AddsFresh.unlinked {t t' : Store} (h : t.AddsFresh t') : t.AddsUnlinked t' := by
  intro id x hnone hx
  rcases h id x hx with hold | ⟨-, -, hlink⟩
  · rw [hnone] at hold
    cases hold
  · exact hlink

/-- Ties lead to globals that exist. -/
def Store.HasTargets (t : Store) (ties : Array Tie) : Prop :=
  ∀ tie ∈ ties, ∃ x, t.get? tie.target = some x ∧ x.scope = .global

theorem Store.hasTargets_empty (t : Store) : t.HasTargets #[] := by
  intro tie htie
  simp at htie

theorem Store.HasTargets.mono {t t' : Store} {ties : Array Tie} (h : t.HasTargets ties)
    (hlasts : t.Lasts t') : t'.HasTargets ties := by
  intro tie htie
  obtain ⟨x, hx, hscope⟩ := h tie htie
  obtain ⟨v, hv⟩ := hlasts _ x hx
  exact ⟨_, hv, hscope⟩

/-- A global that is added may be tied. -/
theorem Store.HasTargets.push {t : Store} {ties : Array Tie} (h : t.HasTargets ties) {x : Variable}
    (hscope : x.scope = .global) (name : String) (available : Nat) :
    (t.add x).HasTargets (ties.push ⟨name, t.size, available⟩) := by
  intro tie htie
  rcases Array.mem_push.1 htie with hmem | rfl
  · exact h.mono (Grows.add t x).lasts tie hmem
  · refine ⟨x, ?_, hscope⟩
    rw [get?_add, if_pos rfl]

namespace Controller

variable {c c' : Controller}

/-- Ties lead to globals, and a variable drives an actuator exactly if that leads back to it. -/
structure Linked (c : Controller) : Prop where
  actuators : c.machine.store.HasTargets c.exchange.actuators
  sensors : c.machine.store.HasTargets c.exchange.sensors
  internalVariables : c.machine.store.HasTargets c.exchange.internalVariables
  linked : ∀ (id : VariableId) (x : Variable) (k : Nat), c.machine.store.get? id = some x →
    (x.actuator = some k ↔ ∃ tie, c.exchange.actuators[k]? = some tie ∧ tie.target = id)

theorem linked_ofSettings (settings : Settings) (stream : RandomStream) :
    (ofSettings settings stream).Linked := by
  refine ⟨?_, ?_, ?_, ?_⟩
  · exact Store.hasTargets_empty _
  · exact Store.hasTargets_empty _
  · exact Store.hasTargets_empty _
  · -- there are no actuators, and only the variables of the clock
    intro id x k hx
    have hnone : ∀ x ∈ clockVariables.entries, x.actuator = none := by decide
    have hmem : x ∈ clockVariables.entries := Array.mem_of_getElem? hx
    have hempty : (ofSettings settings stream).exchange.actuators = #[] := rfl
    simp [hnone x hmem, hempty]

namespace Linked

/-- The variables of the actuators that exist are before any that is added. -/
theorem target_lt (h : c.Linked) {k : Nat} {tie : Tie}
    (htie : c.exchange.actuators[k]? = some tie) : tie.target < c.machine.store.size := by
  obtain ⟨x, hx, -⟩ := h.actuators tie (Array.mem_of_getElem? htie)
  exact Store.lt_size_of_get? hx

/-- Links hold as long as no tie is made and no variable that drives an actuator is added. -/
theorem congr (h : c.Linked) (hlasts : c.machine.store.Lasts c'.machine.store)
    (hadds : c.machine.store.AddsUnlinked c'.machine.store)
    {pointCatalog : Catalog ControlPoint.foldedKey}
    {outputCatalog internalCatalog : Catalog SourcePoint.foldedKey}
    (hexchange : c'.exchange = { c.exchange with pointCatalog, outputCatalog, internalCatalog }) :
    c'.Linked := by
  refine ⟨?_, ?_, ?_, ?_⟩ <;> rw [hexchange]
  · exact h.actuators.mono hlasts
  · exact h.sensors.mono hlasts
  · exact h.internalVariables.mono hlasts
  · intro id x k hx
    cases hold : c.machine.store.get? id with
    | some y =>
      obtain ⟨v, hv⟩ := hlasts id y hold
      obtain rfl := Option.some.inj (hx.symm.trans hv)
      exact h.linked id y k hold
    | none =>
      -- the variable is new, and all ties lead to others
      rw [hadds id x hold hx]
      refine ⟨fun hk => absurd hk (by simp), ?_⟩
      rintro ⟨tie, htie, rfl⟩
      obtain ⟨y, hy, -⟩ := h.actuators tie (Array.mem_of_getElem? htie)
      rw [hold] at hy
      cases hy

/-- A variable that is added and drives no actuator leaves the links as they are. -/
theorem linked_add (h : c.Linked) {x : Variable} (hlink : x.actuator = none) (id : VariableId)
    (y : Variable) (k : Nat) (hy : (c.machine.store.add x).get? id = some y) :
    y.actuator = some k ↔ ∃ tie, c.exchange.actuators[k]? = some tie ∧ tie.target = id := by
  rw [Store.get?_add] at hy
  by_cases hid : id = c.machine.store.size
  · rw [if_pos hid] at hy
    obtain rfl := Option.some.inj hy
    rw [hlink]
    refine ⟨fun hk => absurd hk (by simp), ?_⟩
    rintro ⟨tie, htie, htarget⟩
    exact absurd (htarget.trans hid) (Nat.ne_of_lt (h.target_lt htie))
  · rw [if_neg hid] at hy
    exact h.linked id y k hy

/-- A variable that is added and drives the next actuator is what that leads to. -/
theorem linked_push (h : c.Linked) {x : Variable} (name : String) (available : Nat)
    (hlink : x.actuator = some c.exchange.actuators.size) (id : VariableId) (y : Variable) (k : Nat)
    (hy : (c.machine.store.add x).get? id = some y) :
    y.actuator = some k ↔ ∃ tie,
      (c.exchange.actuators.push ⟨name, c.machine.store.size, available⟩)[k]? = some tie
        ∧ tie.target = id := by
  rw [Store.get?_add] at hy
  rw [Array.getElem?_push]
  by_cases hid : id = c.machine.store.size
  · rw [if_pos hid] at hy
    obtain rfl := Option.some.inj hy
    rw [hlink]
    by_cases hk : k = c.exchange.actuators.size
    · rw [if_pos hk, hk]
      exact ⟨fun _ => ⟨_, rfl, hid.symm⟩, fun _ => rfl⟩
    · -- the other actuators lead to variables before it
      rw [if_neg hk]
      refine ⟨fun heq => absurd (Option.some.inj heq).symm hk, ?_⟩
      rintro ⟨tie, htie, htarget⟩
      exact absurd (htarget.trans hid) (Nat.ne_of_lt (h.target_lt htie))
  · rw [if_neg hid] at hy
    by_cases hk : k = c.exchange.actuators.size
    · -- no variable before it drives the new actuator, which leads to the new one
      rw [if_pos hk, h.linked id y k hy, hk]
      constructor
      · rintro ⟨tie, htie, -⟩
        simp at htie
      · rintro ⟨tie, htie, htarget⟩
        obtain rfl := Option.some.inj htie
        exact absurd htarget.symm hid
    · rw [if_neg hk]
      exact h.linked id y k hy

/-- A variable that is added may be tied, and drives an actuator exactly if it is tied to a
    controlled point. -/
theorem addVariable (h : c.Linked) {x : Variable} {b : Exchange} (hscope : x.scope = .global)
    (hb : c.exchange.Ties c.machine.store.size x.origin x.actuator b) :
    Linked { c.withStore (c.machine.store.add x) with exchange := b } := by
  have hlasts : c.machine.store.Lasts (c.machine.store.add x) := (Store.Grows.add _ x).lasts
  have hactuators := h.actuators.mono hlasts
  have hsensors := h.sensors.mono hlasts
  have hinternals := h.internalVariables.mono hlasts
  -- the tie tells which catalog grows, and whether the variable drives an actuator
  generalize x.origin = origin at hb
  generalize hlink : x.actuator = link at hb
  cases hb with
  | none => exact ⟨hactuators, hsensors, hinternals, h.linked_add hlink⟩
  | actuator name _ _ =>
    exact ⟨h.actuators.push hscope name _, hsensors, hinternals, h.linked_push name _ hlink⟩
  | sensor name _ =>
    exact ⟨hactuators, h.sensors.push hscope name _, hinternals, h.linked_add hlink⟩
  | internalVariable name _ =>
    exact ⟨hactuators, hsensors, h.internalVariables.push hscope name _, h.linked_add hlink⟩

end Linked

/-- Whatever a host does, variables and ties are linked. -/
theorem Does.linked (h : Does c c') (hc : c.Linked) : c'.Linked := by
  have hlasts := h.lasts
  obtain ⟨_, heffect⟩ := h.effect
  cases heffect with
  | addVariable hscope _ hb => exact hc.addVariable hscope hb
  | publish hb =>
    cases hb with
    | point _ => exact hc.congr hlasts (.of_origin?_eq fun _ => rfl) rfl
    | output _ => exact hc.congr hlasts (.of_origin?_eq fun _ => rfl) rfl
    | internal _ => exact hc.congr hlasts (.of_origin?_eq fun _ => rfl) rfl
  | assign v _ =>
    exact hc.congr hlasts (.of_origin?_eq fun id => Store.origin?_set _ _ id v) rfl
  | updateClock clock =>
    refine hc.congr hlasts (.of_origin?_eq fun id => ?_) rfl
    exact Store.origin?_foldl_set _ (fun t a id => Store.origin?_set t _ id _) _ _ id
  | compile => exact hc.congr hlasts c.compile_covered.fresh.unlinked rfl
  | run point =>
    obtain ⟨pointCatalog, -, hexchange⟩ := (c.run_runsTo point).exchange
    exact hc.congr hlasts (.of_origin?_eq (c.run_runsTo point).origin?) hexchange
  | host routines curves cells constructions =>
    exact hc.congr hlasts (.of_origin?_eq fun _ => rfl) rfl
  | refuse problem => exact hc.congr hlasts (.of_origin?_eq fun _ => rfl) rfl
  | addTrend _ => exact hc.congr hlasts (.of_origin?_eq fun _ => rfl) rfl
  | addProgram _ _ => exact hc.congr hlasts (.of_origin?_eq fun _ => rfl) rfl
  | bind point _ => exact hc.congr hlasts (.of_origin?_eq fun _ => rfl) rfl

theorem Reachable.linked (h : Reachable c) : c.Linked := by
  induction h with
  | ofSettings settings stream => exact linked_ofSettings settings stream
  | does _ hdoes ih => exact hdoes.linked ih

end Controller

/-! ## Keys -/

namespace Exchange

/-- No two entries of a catalog have one key. -/
structure Keyed (b : Exchange) : Prop where
  points : KeysDiffer ControlPoint.foldedKey b.points
  outputs : KeysDiffer SourcePoint.foldedKey b.outputs
  internals : KeysDiffer SourcePoint.foldedKey b.internals
  actuators : KeysDiffer Tie.available b.actuators
  sensors : KeysDiffer Tie.ends b.sensors
  internalVariables : KeysDiffer Tie.ends b.internalVariables

theorem keyed_empty : empty.Keyed :=
  ⟨.empty _, .empty _, .empty _, .empty _, .empty _, .empty _⟩

variable {b b' : Exchange}

theorem Publishes.keyed (h : b.Publishes b') (hb : b.Keyed) : b'.Keyed := by
  cases h with
  | point hnew => exact { hb with points := hb.points.push (Catalog.key_ne_of_find? hnew) }
  | output hnew => exact { hb with outputs := hb.outputs.push (Catalog.key_ne_of_find? hnew) }
  | internal hnew => exact { hb with internals := hb.internals.push (Catalog.key_ne_of_find? hnew) }

/-- Ties of a variable that nothing is tied to yet have ends of their own. -/
theorem Ties.keyed {id : VariableId} {origin : Origin} {link : Option Nat}
    (h : b.Ties id origin link b') (hb : b.Keyed)
    (hsensors : ∀ tie ∈ b.sensors, tie.target ≠ id)
    (hinternals : ∀ tie ∈ b.internalVariables, tie.target ≠ id) : b'.Keyed := by
  have hends : ∀ {ties : Array Tie}, (∀ tie ∈ ties, tie.target ≠ id) → ∀ (name : String)
      (available : Nat), ∀ tie ∈ ties, tie.ends ≠ Tie.ends ⟨name, id, available⟩ :=
    fun hties _ _ tie htie heq => hties tie htie (congrArg Prod.snd heq)
  cases h with
  | none => exact hb
  | actuator name _ hunused =>
    exact { hb with actuators := hb.actuators.push (Catalog.key_ne_of_find? hunused) }
  | sensor name _ => exact { hb with sensors := hb.sensors.push (hends hsensors name _) }
  | internalVariable name _ =>
    exact { hb with internalVariables := hb.internalVariables.push (hends hinternals name _) }

/-- All indexes lead from keys to the entries under them. -/
structure Indexed (b : Exchange) : Prop where
  points : b.pointCatalog.IsIndexed
  outputs : b.outputCatalog.IsIndexed
  internals : b.internalCatalog.IsIndexed
  /-- Actuators by the points that they use. -/
  actuators : b.actuatorCatalog.IsIndexed
  /-- Sensors by what they connect, and likewise internal variables. -/
  sensors : b.sensorCatalog.IsIndexed
  internalVariables : b.internalVariableCatalog.IsIndexed

theorem Keyed.indexed (h : b.Keyed) : b.Indexed :=
  ⟨Catalog.isIndexed h.points, Catalog.isIndexed h.outputs, Catalog.isIndexed h.internals,
    Catalog.isIndexed h.actuators, Catalog.isIndexed h.sensors,
    Catalog.isIndexed h.internalVariables⟩

end Exchange

namespace Controller

variable {c c' : Controller}

/-- A run changes no keys. -/
theorem RunsTo.keyed {point : CallingPoint} {r : Except RunError (List Outcome)}
    (h : RunsTo c point r c') (hc : c.exchange.Keyed) : c'.exchange.Keyed := by
  have hpoints := hc.points.of_map (f := ControlPoint.released) (fun _ => rfl) h.released
  obtain ⟨pointCatalog, -, hexchange⟩ := h.exchange
  rw [hexchange] at hpoints ⊢
  exact { hc with points := hpoints }

/-- Whatever a host does, keys stay different. -/
theorem Does.keyed (h : Does c c') (hties : c.TiesHold) (hc : c.exchange.Keyed) :
    c'.exchange.Keyed := by
  obtain ⟨_, heffect⟩ := h.effect
  cases heffect with
  | publish hb => exact hb.keyed hc
  | addVariable _ _ hb =>
    -- ties lead to variables before the one that is added
    refine hb.keyed hc (fun tie htie => ?_) fun tie htie => ?_
    · exact Nat.ne_of_lt (Store.lt_size_of_origin? (hties.sensors.origin tie htie))
    · exact Nat.ne_of_lt (Store.lt_size_of_origin? (hties.internalVariables.origin tie htie))
  | run point => exact (c.run_runsTo point).keyed hc
  | host routines curves cells constructions => exact hc
  | refuse problem => exact hc
  | assign v _ => exact hc
  | updateClock clock =>
    rw [Controller.updateClock, exchange_withStore]
    exact hc
  | addTrend _ => exact hc
  | addProgram _ _ => exact hc
  | bind point _ => exact hc
  | compile =>
    rw [exchange_compile]
    exact hc

theorem Reachable.keyed (h : Reachable c) : c.exchange.Keyed := by
  induction h with
  | ofSettings settings stream => exact Exchange.keyed_empty
  | does hreach hdoes ih => exact hdoes.keyed hreach.tiesHold ih

end Controller

/-! ## Consistency -/

/-- A tie leads to something published and to a global of an origin. -/
structure Tie.Leads (tie : Tie) (store : Store) (origin : Origin) (published : Nat) : Prop where
  published : tie.available < published
  global : ∃ x, store.get? tie.target = some x ∧ x.scope = .global ∧ x.origin = origin

theorem Tied.leads_of_hasTargets {store : Store} {origin : Origin} {published : Nat}
    {ties : Array Tie} (h : Tied store origin published ties) (htargets : store.HasTargets ties) :
    ∀ tie ∈ ties, tie.Leads store origin published := by
  intro tie htie
  obtain ⟨x, hx, hscope⟩ := htargets tie htie
  have horigin := h.origin tie htie
  rw [Store.origin?, hx] at horigin
  exact ⟨h.leads tie htie, x, hx, hscope, Option.some.inj horigin⟩

namespace Controller

variable {c : Controller}

/-- The catalogs and the variables refer to each other as they have to. -/
structure Consistent (c : Controller) : Prop where
  actuators : ∀ tie ∈ c.exchange.actuators,
    tie.Leads c.machine.store .actuator c.exchange.points.size
  sensors : ∀ tie ∈ c.exchange.sensors,
    tie.Leads c.machine.store .sensor c.exchange.outputs.size
  internalVariables : ∀ tie ∈ c.exchange.internalVariables,
    tie.Leads c.machine.store .internalVariable c.exchange.internals.size
  /-- No two actuators use the same point. -/
  unshared : (c.exchange.actuators.toList.map Tie.available).Nodup
  /-- Each entry of a catalog is found by its key, and nothing else is. -/
  indexed : c.exchange.Indexed
  /-- No two ties of any kind lead to the same variable. -/
  distinct : ((c.exchange.actuators.toList ++ c.exchange.sensors.toList
    ++ c.exchange.internalVariables.toList).map Tie.target).Nodup
  /-- A variable drives an actuator exactly if that leads back to it. -/
  linked : ∀ (id : VariableId) (k : Nat),
    (c.machine.store.get? id).bind Variable.actuator = some k
      ↔ (c.exchange.actuators[k]?).map Tie.target = some id

theorem Reachable.consistent (h : Reachable c) : c.Consistent := by
  have hties := h.tiesHold
  have hlinked := h.linked
  refine ⟨hties.actuators.leads_of_hasTargets hlinked.actuators,
    hties.sensors.leads_of_hasTargets hlinked.sensors,
    hties.internalVariables.leads_of_hasTargets hlinked.internalVariables, hties.unshared,
    h.keyed.indexed, ?_, ?_⟩
  · -- variables of ties of different kinds have different origins
    have hapart : ∀ {o o' : Origin} {n n' : Nat} {ties ties' : Array Tie},
        Tied c.machine.store o n ties → Tied c.machine.store o' n' ties' → o ≠ o' →
        ∀ tie ∈ ties, ∀ tie' ∈ ties', tie.target ≠ tie'.target :=
      fun h h' hne tie htie tie' htie' heq =>
        h'.target_ne (h.origin tie htie) hne tie' htie' heq.symm
    have hsensors := hapart hties.actuators hties.sensors (by decide)
    have hinternals := hapart hties.actuators hties.internalVariables (by decide)
    have hsources := hapart hties.sensors hties.internalVariables (by decide)
    rw [List.map_append, List.map_append]
    refine List.nodup_append.2 ⟨List.nodup_append.2
      ⟨hties.actuators.distinct, hties.sensors.distinct, ?_⟩, hties.internalVariables.distinct, ?_⟩
    · simpa using hsensors
    · simp only [List.mem_append, List.mem_map, Array.mem_toList_iff]
      rintro a (⟨tie, htie, rfl⟩ | ⟨tie, htie, rfl⟩) b ⟨tie', htie', rfl⟩
      · exact hinternals tie htie tie' htie'
      · exact hsources tie htie tie' htie'
  · intro id k
    rw [Option.bind_eq_some_iff, Option.map_eq_some_iff]
    constructor
    · rintro ⟨x, hx, hk⟩
      exact (hlinked.linked id x k hx).1 hk
    · rintro ⟨tie, htie, rfl⟩
      obtain ⟨x, hx, -⟩ := hlinked.actuators tie (Array.mem_of_getElem? htie)
      exact ⟨x, hx, (hlinked.linked _ x k hx).2 ⟨tie, htie, rfl⟩⟩

end Controller

end Erl
