/-
  Erl.Proofs.Controller.Protection

  Read-only variables cannot be corrupted.

  A name is checked against read-only variables when an assignment is compiled, but programs
  assign by position, and so do the clock and the sources.  The check is enough: positions keep
  their origins, every line assigns a position that was free to be assigned, the clock owns the
  first positions, and ties lead to the variables that were made for them.
-/

import Erl.Proofs.Controller.Ties

namespace Erl

/-! ## Who assigns what -/

/-- Assignments to other variables keep a variable as it is. -/
theorem Store.get?_foldl_set_of_ne {xs : List (Float × VariableId)} {id : VariableId}
    (h : ∀ x ∈ xs, x.2 ≠ id) (t : Store) :
    (xs.foldl (fun t (x, target) => t.set target (.number x)) t).get? id = t.get? id := by
  induction xs generalizing t with
  | nil => rfl
  | cons x rest ih =>
    rw [List.foldl_cons, ih fun y hy => h y (List.mem_cons_of_mem x hy)]
    exact Store.get?_set_of_ne _ (h x List.mem_cons_self) _

namespace Controller

variable {c c' : Controller} {id : VariableId} {o : Origin}

/-- The clock assigns the first variables only. -/
theorem updateClock_get? (c : Controller) (clock : Clock)
    (h : Clock.variableNames.length ≤ id) :
    (c.updateClock clock).machine.store.get? id = c.machine.store.get? id := by
  refine Store.get?_foldl_set_of_ne (fun x hx => ?_) c.machine.store
  have hlt : x.2 < clock.values.length + 0 := List.snd_lt_of_mem_zipIdx hx
  exact Nat.ne_of_lt (Nat.lt_of_lt_of_le hlt h)

/-- The first variables are those of the clock, for ever. -/
theorem Reachable.origin?_clock (h : Reachable c) (hid : id < Clock.variableNames.length) :
    c.machine.store.origin? id = some .builtIn := by
  induction h with
  | ofSettings settings stream =>
    have hall : ∀ id < Clock.variableNames.length,
        clockVariables.origin? id = some .builtIn := by decide
    exact hall id hid
  | does _ hdoes ih => exact hdoes.keeps _ _ ih

/-- No line assigns a read-only variable. -/
theorem WellFormed.not_assigns (h : c.WellFormed) (ho : c.machine.store.origin? id = some o)
    (hprotected : o.isProtected = true) : ¬ c.image.Assigns id := by
  rintro ⟨program, p, line, e, hp, hline, hset⟩
  have hrefers := (h.lines p (Array.mem_of_getElem? hp) line hline).1
  rw [hset] at hrefers
  obtain ⟨⟨o', ho', hfree⟩, -⟩ := hrefers
  rw [ho] at ho'
  rw [Option.some.inj ho', hfree] at hprotected
  cases hprotected

/-- A run that starts leaves a read-only variable as it is after reading the sources. -/
theorem RunsTo.get?_of_protected {point : CallingPoint} {r : Except RunError (List Outcome)}
    (h : RunsTo c point r c') (hc : c.WellFormed) (ho : c.machine.store.origin? id = some o)
    (hprotected : o.isProtected = true) :
    (c' = c ∧ ∀ store, ¬ c.Starts point store)
      ∨ c'.machine.store.get? id = (c.exchange.refresh c.cells c.machine.store).get? id := by
  rcases h.store with hidle | ⟨store, m, hstarts, hbecomes, heq⟩
  · exact .inl hidle
  · right
    rw [heq, hbecomes.get? (hc.not_assigns ho hprotected),
      Exchange.refresh?_eq_some hstarts.refreshed]

/-- Reading the sources assigns the variables of sensors and internal variables only. -/
theorem TiesHold.refresh_get? (h : c.TiesHold) (ho : c.machine.store.origin? id = some o)
    (hsensor : o ≠ .sensor) (hinternal : o ≠ .internalVariable) :
    (c.exchange.refresh c.cells c.machine.store).get? id = c.machine.store.get? id :=
  Exchange.refresh_get? _ _ (h.sensors.target_ne ho hsensor)
    (h.internalVariables.target_ne ho hinternal)

/-- A read-only variable changes only when the clock is updated, if it belongs to the clock, and
    when the sources are read, if it belongs to a source. -/
theorem Does.get?_of_protected (hreach : Reachable c) (h : Does c c')
    (ho : c.machine.store.origin? id = some o) (hprotected : o.isProtected = true) :
    c'.machine.store.get? id = c.machine.store.get? id
      ∨ (o = .builtIn ∧ ∃ clock, c' = c.updateClock clock)
      ∨ ((o = .sensor ∨ o = .internalVariable) ∧ ∃ point, c' = (c.run point).2
          ∧ c'.machine.store.get? id
              = (c.exchange.refresh c.cells c.machine.store).get? id) := by
  have hgrows : ∀ {t : Store}, c.machine.store.Grows t →
      t.get? id = c.machine.store.get? id := by
    intro t ht
    obtain ⟨x, hx, -⟩ := Option.map_eq_some_iff.1 ho
    rw [hx, ht id x hx]
  obtain ⟨_, heffect⟩ := h.effect
  cases heffect with
  | addVariable _ _ _ => exact .inl (hgrows (.add _ _))
  | compile => exact .inl (hgrows c.compile_le.1)
  | @assign target v hfree =>
    refine .inl (Store.get?_set_of_ne _ ?_ v)
    rintro rfl
    rw [Store.isProtected_eq, ho] at hfree
    rw [show o.isProtected = false from hfree] at hprotected
    cases hprotected
  | updateClock clock =>
    by_cases hid : Clock.variableNames.length ≤ id
    · exact .inl (c.updateClock_get? clock hid)
    · have hclock := hreach.origin?_clock (Nat.lt_of_not_le hid)
      rw [ho] at hclock
      exact .inr (.inl ⟨Option.some.inj hclock, clock, rfl⟩)
  | run point =>
    have hrun := (c.run_runsTo point).get?_of_protected hreach.wellFormed ho hprotected
    rcases hrun with ⟨heq, -⟩ | hget
    · exact .inl (by rw [heq])
    · by_cases hsource : o = .sensor ∨ o = .internalVariable
      · exact .inr (.inr ⟨hsource, point, rfl, hget⟩)
      · rw [not_or] at hsource
        exact .inl (hget.trans (hreach.tiesHold.refresh_get? ho hsource.1 hsource.2))
  | host routines curves cells constructions => exact .inl rfl
  | publish _ => exact .inl rfl
  | refuse problem => exact .inl rfl
  | addTrend _ => exact .inl rfl
  | addProgram _ _ => exact .inl rfl
  | bind point _ => exact .inl rfl

/-! ## Sources -/

/-- After the sources were read, a variable that is tied to one holds its number. -/
theorem TiesHold.value_refresh (h : c.TiesHold) :
    (∀ tie ∈ c.exchange.sensors, ∃ p, c.exchange.outputs[tie.available]? = some p
        ∧ (c.exchange.refresh c.cells c.machine.store).value tie.target
            = .number (c.cells.read p.cell))
      ∧ ∀ tie ∈ c.exchange.internalVariables, ∃ p, c.exchange.internals[tie.available]? = some p
        ∧ (c.exchange.refresh c.cells c.machine.store).value tie.target
            = .number (c.cells.read p.cell) := by
  unfold Exchange.refresh
  rw [← Array.foldl_toList, ← Array.foldl_toList]
  constructor
  · intro tie htie
    have hp := Array.getElem?_eq_getElem (h.sensors.leads tie htie)
    have ho := h.sensors.origin tie htie
    -- internal variables are read afterwards, into other variables
    have hothers := h.internalVariables.target_ne ho (by decide)
    refine ⟨_, hp, ?_⟩
    rw [Store.value_eq, Exchange.get?_foldl_readTie _ _
      fun other hother => hothers other (Array.mem_toList_iff.1 hother), ← Store.value_eq]
    exact Exchange.value_foldl_readTie _ _ h.sensors.distinct (Array.mem_toList_iff.2 htie) hp
      (Store.lt_size_of_origin? ho)
  · intro tie htie
    have hp := Array.getElem?_eq_getElem (h.internalVariables.leads tie htie)
    have ho := h.internalVariables.origin tie htie
    refine ⟨_, hp, ?_⟩
    refine Exchange.value_foldl_readTie _ _ h.internalVariables.distinct
      (Array.mem_toList_iff.2 htie) hp ?_
    refine Store.lt_size_of_origin? (o := .internalVariable) ?_
    rw [Store.origin?_foldl_set _ (Exchange.readTie_origin? _ _), ho]

/-- After a run that runs a program, however it ends, a read-only variable holds what it held
    when the sources were read. -/
theorem Reachable.value_run (h : Reachable c) {point : CallingPoint}
    (hactive : c.terminated = false) (hcompiled : c.compiled = true)
    (hbound : c.schedule.programs point ≠ []) (ho : c.machine.store.origin? id = some o)
    (hprotected : o.isProtected = true) :
    (c.run point).2.machine.store.value id
      = (c.exchange.refresh c.cells c.machine.store).value id := by
  rcases (c.run_runsTo point).get?_of_protected h.wellFormed ho hprotected with ⟨-, hidle⟩ | hget
  · exact absurd ⟨hactive, hcompiled, hbound, h.tiesHold.refresh?⟩ (hidle _)
  · rw [Store.value_eq, hget, ← Store.value_eq]

/-- Read-only variables cannot be corrupted, whatever a host and its programs do.

    An index of a curve or a construction never changes.  A variable of the clock changes only
    when the clock is updated, and a variable of a source only when a run reads the sources.
    After a run that ran a program, however it ended, a variable that is tied to a source holds
    the number that the source held when the run began.  No invocation of a program or
    subroutine, wherever it comes to, and no assignment by the host changes any of them. -/
theorem Reachable.protected_kept (h : Reachable c) :
    (∀ (id : VariableId) (o : Origin), c.machine.store.origin? id = some o →
        o = .curveIndex ∨ o = .constructionIndex → ∀ c', Later c c' →
        c'.machine.store.get? id = c.machine.store.get? id)
      ∧ (∀ id : VariableId, c.machine.store.origin? id = some .builtIn → ∀ c', Does c c' →
          c'.machine.store.get? id = c.machine.store.get? id ∨ ∃ clock, c' = c.updateClock clock)
      ∧ (∀ (id : VariableId) (o : Origin), c.machine.store.origin? id = some o →
          o = .sensor ∨ o = .internalVariable → ∀ c', Does c c' →
          c'.machine.store.get? id = c.machine.store.get? id
            ∨ ∃ point, c' = (c.run point).2 ∧ c'.machine.store.get? id
                = (c.exchange.refresh c.cells c.machine.store).get? id)
      ∧ (∀ point, c.terminated = false → c.compiled = true → c.schedule.programs point ≠ [] →
          (∀ tie ∈ c.exchange.sensors, ∃ p, c.exchange.outputs[tie.available]? = some p
              ∧ (c.run point).2.machine.store.value tie.target = .number (c.cells.read p.cell))
            ∧ ∀ tie ∈ c.exchange.internalVariables, ∃ p,
              c.exchange.internals[tie.available]? = some p
              ∧ (c.run point).2.machine.store.value tie.target = .number (c.cells.read p.cell))
      ∧ ∀ (id : VariableId) (o : Origin), c.machine.store.origin? id = some o →
          o.isProtected = true →
          (∀ depth program m d current cursor m',
              c.image.Visits depth program m d current cursor m' →
              m'.store.get? id = m.store.get? id)
            ∧ (∀ name v, c.machine.store.global? name = some id →
                c.writeGlobal name v = .error (.readOnly name))
            ∧ ∀ name v c', c.writeGlobal name v = .ok c' →
                c'.machine.store.get? id = c.machine.store.get? id := by
  have hties := h.tiesHold
  refine ⟨?_, ?_, ?_, ?_, ?_⟩
  · intro id o ho hindex c' hlater
    have hprotected : o.isProtected = true := by rcases hindex with rfl | rfl <;> rfl
    induction hlater with
    | refl => rfl
    | @tail c₁ c₂ hlater hdoes ih =>
      have ho₁ : c₁.machine.store.origin? id = some o := by
        rw [Store.origin?, ih]
        exact ho
      rcases hdoes.get?_of_protected (h.later hlater) ho₁ hprotected with
        hsame | ⟨rfl, -⟩ | ⟨hsource, -⟩
      · exact hsame.trans ih
      · simp at hindex
      · rcases hindex with rfl | rfl <;> simp at hsource
  · intro id ho c' hdoes
    rcases hdoes.get?_of_protected h ho rfl with hsame | ⟨-, hclock⟩ | ⟨hsource, -⟩
    · exact .inl hsame
    · exact .inr hclock
    · simp at hsource
  · intro id o ho hsource c' hdoes
    have hprotected : o.isProtected = true := by rcases hsource with rfl | rfl <;> rfl
    rcases hdoes.get?_of_protected h ho hprotected with hsame | ⟨rfl, -⟩ | ⟨-, hrun⟩
    · exact .inl hsame
    · simp at hsource
    · exact .inr hrun
  · intro point hactive hcompiled hbound
    obtain ⟨hsensors, hinternals⟩ := hties.value_refresh
    constructor
    · intro tie htie
      obtain ⟨p, hp, hvalue⟩ := hsensors tie htie
      refine ⟨p, hp, ?_⟩
      rw [h.value_run hactive hcompiled hbound (hties.sensors.origin tie htie) rfl, hvalue]
    · intro tie htie
      obtain ⟨p, hp, hvalue⟩ := hinternals tie htie
      refine ⟨p, hp, ?_⟩
      rw [h.value_run hactive hcompiled hbound (hties.internalVariables.origin tie htie) rfl,
        hvalue]
  · intro id o ho hprotected
    have hread : c.machine.store.isProtected id = true := by
      rw [Store.isProtected_eq, ho]
      exact hprotected
    refine ⟨?_, ?_, ?_⟩
    · intro depth program m d current cursor m' hvisits
      exact hvisits.becomes.get? (h.wellFormed.not_assigns ho hprotected)
    · intro name v hname
      rw [writeGlobal, hname]
      exact if_pos hread
    · intro name v c' hwrite
      unfold writeGlobal at hwrite
      split at hwrite
      · cases hwrite
      · next target _ =>
        split at hwrite
        · cases hwrite
        · next hfree =>
          cases hwrite
          refine Store.get?_set_of_ne _ ?_ v
          rintro rfl
          exact hfree hread

/-- A controller with a sensor, an index of a construction and a program that runs after the
    sensor was read. -/
def observed : Controller :=
  let c := ((Controller.ofSettings .default .zero).addCell (.logical true)).2
  let c := c.publishOutput ⟨"Site Temperature", "Environment", "C", 0⟩
  let c := (c.attachSensor "T" "Site Temperature" "Environment").2
  let c := ((c.publishConstruction "Wall").2.declareConstructionIndex "W" "Wall").2
  let c := (c.addProgram "main" "SET x = T\nIF @FatalHaltEp x\nENDIF").2
  (c.bindProgram .beginNewEnvironment "main").2.compile

theorem Reachable.protected_kept_observed :
    Reachable observed ∧ observed.exchange.sensors = #[⟨"T", 16, 0⟩]
      ∧ observed.machine.store.origin? 17 = some .constructionIndex
      ∧ observed.compiled = true
      ∧ (observed.run .beginNewEnvironment).2.terminated = true
      ∧ (observed.run .beginNewEnvironment).2.machine.store.value 16
          = .number (observed.cells.read 0)
      ∧ (∀ c', Later observed c' →
          c'.machine.store.get? 17 = observed.machine.store.get? 17) := by
  have hreach : Reachable observed :=
    ((((((((Reachable.ofSettings .default .zero).does (.addCell _)).does (.publishOutput _)).does
      (.attachSensor _ _ _)).does (.publishConstruction _)).does
      (.declareConstructionIndex _ _)).does (.addProgram _ _)).does (.bindProgram _ _)).does
      .compile
  have hmade : observed.exchange.sensors = #[⟨"T", 16, 0⟩]
      ∧ observed.exchange.outputs.map SourcePoint.cell = #[0]
      ∧ observed.machine.store.origin? 17 = some .constructionIndex
      ∧ observed.terminated = false ∧ observed.compiled = true
      ∧ observed.schedule.programs .beginNewEnvironment ≠ []
      ∧ (observed.run .beginNewEnvironment).2.terminated = true := by
    decide +kernel
  obtain ⟨hsensors, hcell, horigin, hactive, hcompiled, hbound, hhalted⟩ := hmade
  obtain ⟨hindex, -, -, hsources, -⟩ := hreach.protected_kept
  refine ⟨hreach, hsensors, horigin, hcompiled, hhalted, ?_, ?_⟩
  · obtain ⟨p, hp, hvalue⟩ :=
      (hsources .beginNewEnvironment hactive hcompiled hbound).1 ⟨"T", 16, 0⟩ (by simp [hsensors])
    -- the first output is the first cell
    have hzero : (observed.exchange.outputs.map SourcePoint.cell)[0]? = some p.cell := by
      rw [Array.getElem?_map, hp]
      rfl
    rw [hcell] at hzero
    rw [hvalue, ← show 0 = p.cell from Option.some.inj hzero]
  · exact fun c' hlater => hindex 17 _ horigin (.inr rfl) c' hlater

end Controller

end Erl
