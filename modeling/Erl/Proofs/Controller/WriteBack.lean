/-
  Erl.Proofs.Controller.WriteBack

  Actuators are carried out exactly.

  After the last program of a regular run the host gets one number for each actuator whose
  variable holds one, and no other: the cells are what they were, with these numbers written to
  them one after another.  The same numbers go to any other host that takes numbers, so that they
  are counted and not only seen in what cells hold in the end.  A run that ends in any other way
  leaves the host alone.
-/

import Erl.Proofs.Controller.Ties

namespace Erl

/-! ## Refused actuators -/

/-- The message about an actuator whose variable holds neither a number nor null. -/
def Exchange.refusal? (t : Store) (tie : Tie) : Option Message :=
  match t.value tie.target with
  | .number _ => none
  | .null => none
  | v =>
    some ⟨.runtimeError, none,
      "actuator " ++ tie.name ++ " holds " ++ v.display ++ " and was not written"⟩

namespace Controller

/-- One message is added for each actuator that is refused, in the order of the actuators. -/
theorem records_reportRefused (t : Store) (ties : List Tie) (log : Log) :
    (reportRefused log (ties.map (Exchange.command t))).records.toList
      = log.records.toList ++ ties.filterMap (Exchange.refusal? t) := by
  induction ties generalizing log with
  | nil => simp [reportRefused]
  | cons tie rest ih =>
    have hfirst : (reportRefused log [Exchange.command t tie]).records.toList
        = log.records.toList ++ (Exchange.refusal? t tie).toList := by
      unfold reportRefused Exchange.command Exchange.refusal?
      cases t.value tie.target <;> simp [Log.record]
    have hsplit : reportRefused log ((tie :: rest).map (Exchange.command t))
        = reportRefused (reportRefused log [Exchange.command t tie])
            (rest.map (Exchange.command t)) := rfl
    rw [hsplit, ih, hfirst, List.append_assoc]
    congr 1
    cases hd : Exchange.refusal? t tie <;> simp [hd]

variable {c c' : Controller} {point : CallingPoint}

/-! ## Runs -/

/-- A regular run of bound programs carries out the commands of all actuators. -/
theorem RunsTo.done_of_ok {outcomes : List Outcome} (h : RunsTo c point (.ok outcomes) c')
    (hbound : c.schedule.programs point ≠ []) :
    ∃ store m, c.Starts point store
      ∧ c.image.Runs { c.machine with store } (c.schedule.programs point) outcomes m
      ∧ c' = { c with machine := m }.finishRun (c.exchange.commands m.store) := by
  cases h with
  | nothing _ _ hnone => exact absurd hnone hbound
  | @done store outcomes m commands hstarts hruns hcommands =>
    refine ⟨store, m, hstarts, hruns, ?_⟩
    unfold Exchange.commands? at hcommands
    split at hcommands
    · rw [← Option.some.inj hcommands]
    · cases hcommands

/-- A run without a regular end leaves the host alone. -/
theorem RunsTo.idle_of_error {e : RunError} (h : RunsTo c point (.error e) c') :
    c'.exchange = c.exchange ∧ c'.cells = c.cells := by
  cases h <;> exact ⟨rfl, rfl⟩

/-- Where nothing is bound nothing happens. -/
theorem RunsTo.idle_of_unbound {r : Except RunError (List Outcome)} (h : RunsTo c point r c')
    (hnone : c.schedule.programs point = []) :
    c'.exchange = c.exchange ∧ c'.cells = c.cells := by
  cases h with
  | done hstarts _ _ => exact absurd hnone hstarts.bound
  | _ => exact ⟨rfl, rfl⟩

/-- A run does not flag a point that no actuator uses. -/
theorem RunsTo.points_of_unused {r : Except RunError (List Outcome)} (h : RunsTo c point r c')
    {k : Nat} (hunused : ∀ tie ∈ c.exchange.actuators, tie.available ≠ k) :
    c'.exchange.points[k]? = c.exchange.points[k]? := by
  cases r with
  | error e => rw [h.idle_of_error.1]
  | ok outcomes =>
    by_cases hbound : c.schedule.programs point = []
    · rw [(h.idle_of_unbound hbound).1]
    · obtain ⟨store, m, -, -, rfl⟩ := h.done_of_ok hbound
      exact Exchange.points_performAllOn_of_unused _ m.store c.exchange c.cells
        fun tie htie => hunused tie (Array.mem_toList_iff.1 htie)

/-- Whatever a host does, a point that no actuator uses is not flagged. -/
theorem Does.points_of_unused (h : Does c c') {k : Nat} (hk : k < c.exchange.points.size)
    (hunused : ∀ tie ∈ c.exchange.actuators, tie.available ≠ k) :
    c'.exchange.points[k]? = c.exchange.points[k]? := by
  obtain ⟨_, heffect⟩ := h.effect
  cases heffect with
  | publish hb =>
    cases hb with
    | point _ =>
      show (c.exchange.points.push _)[k]? = _
      rw [Array.getElem?_push, if_neg (Nat.ne_of_lt hk)]
    | output _ => rfl
    | internal _ => rfl
  | addVariable _ _ hb => exact congrArg (fun points => points[k]?) hb.published.1
  | run point => exact (c.run_runsTo point).points_of_unused hunused
  | host routines curves cells constructions => rfl
  | refuse problem => rfl
  | assign v _ => rfl
  | updateClock clock => rfl
  | addTrend _ => rfl
  | addProgram _ _ => rfl
  | bind point _ => rfl
  | compile => rfl

/-- Actuators are carried out exactly.

    After a regular run of bound programs, with the variables as the last program left them: the
    cells are those before the run, with some deliveries written to them and nothing else.  The
    commands that are carried out hand the same deliveries to any host.  The point of an actuator
    whose variable holds a number gets that number once, as its storage would hold it, and is put in
    force; for null it gets nothing and is taken out of force; for anything else it gets nothing and
    keeps its flag, and one message is recorded if that is asked for.  A point that no actuator uses
    gets nothing, and no operation ever flags it.  A run without a regular end, and one where
    nothing is bound, leave points and cells as they are. -/
theorem Reachable.write_back_exact (h : Reachable c) :
    (∀ point outcomes, c.schedule.programs point ≠ [] → (c.run point).1 = .ok outcomes →
        ∃ (store : Store) (m : Machine) (deliveries : List Delivery), c.Starts point store
          ∧ c.image.Runs { c.machine with store } (c.schedule.programs point) outcomes m
          ∧ (c.run point).2.machine.store = m.store
          ∧ c.exchange.performAll c.cells (c.exchange.commands m.store)
              = ((c.run point).2.exchange, (c.run point).2.cells)
          ∧ (c.run point).2.cells = deliveries.foldl (Delivery.take Exchange.writeCell) c.cells
          ∧ (∀ (H : Type) (write : Exchange.Writer H) (host : H),
              c.exchange.performAllOn write host (c.exchange.commands m.store)
                = ((c.run point).2.exchange, deliveries.foldl (Delivery.take write) host))
          ∧ (∀ tie ∈ c.exchange.actuators, ∃ p, c.exchange.points[tie.available]? = some p
              ∧ (c.run point).2.exchange.points[tie.available]?
                  = some (p.flagged (m.store.value tie.target))
              ∧ deliveries.filter (fun d => d.available = tie.available)
                  = match m.store.value tie.target with
                    | .number x => [⟨tie.available, p, p.storage.coerce x⟩]
                    | _ => [])
          ∧ (∀ k, (∀ tie ∈ c.exchange.actuators, tie.available ≠ k) →
              deliveries.filter (fun d => d.available = k) = [])
          ∧ (c.run point).2.machine.log.records.toList
              = m.log.records.toList ++
                if c.image.settings.output.emsErrors then
                  c.exchange.actuators.toList.filterMap (Exchange.refusal? m.store)
                else [])
      ∧ (∀ k < c.exchange.points.size, (∀ tie ∈ c.exchange.actuators, tie.available ≠ k) →
          ∀ c', Does c c' → c'.exchange.points[k]? = c.exchange.points[k]?)
      ∧ ∀ point, c.schedule.programs point = [] ∨ (∃ e, (c.run point).1 = .error e) →
          (c.run point).2.exchange = c.exchange ∧ (c.run point).2.cells = c.cells := by
  have hties := h.tiesHold
  refine ⟨?_, ?_, ?_⟩
  · intro point outcomes hbound hok
    have hends := c.run_runsTo point
    rw [hok] at hends
    obtain ⟨store, m, hstarts, hruns, heq⟩ := hends.done_of_ok hbound
    rw [heq]
    -- any host gets the same deliveries, and so do the cells
    have hdelivered : ∀ {H : Type} (write : Exchange.Writer H) (host : H),
        (c.exchange.performAllOn write host (c.exchange.commands m.store)).2
          = (c.exchange.deliveries m.store c.exchange.actuators.toList).foldl
              (Delivery.take write) host :=
      fun write host => Exchange.host_performAllOn write m.store hties.unshared c.exchange host
    refine ⟨store, m, c.exchange.deliveries m.store c.exchange.actuators.toList, hstarts, hruns,
      rfl, rfl, hdelivered Exchange.writeCell c.cells, ?_, ?_, ?_, ?_⟩
    · intro H write host
      exact Prod.ext (Exchange.fst_performAllOn _ _ _ _ _ _) (hdelivered write host)
    · intro tie htie
      have hmem : tie ∈ c.exchange.actuators.toList := Array.mem_toList_iff.2 htie
      have hp := Array.getElem?_eq_getElem (hties.actuators.leads tie htie)
      refine ⟨_, hp, ?_, ?_⟩
      · have hflag := Exchange.points_performAllOn_of_used Exchange.writeCell m.store
          hties.unshared hmem c.exchange c.cells
        rw [hp] at hflag
        exact hflag
      · rw [Exchange.filter_deliveries_of_used _ _ hties.unshared hmem, Exchange.delivery?, hp]
        cases m.store.value tie.target <;> rfl
    · intro k hunused
      exact Exchange.filter_deliveries_of_unused _ _
        fun tie htie => hunused tie (Array.mem_toList_iff.1 htie)
    · show (if _ then _ else _ : Log).records.toList = _
      split
      · exact records_reportRefused m.store c.exchange.actuators.toList m.log
      · rw [List.append_nil]
  · intro k hk hunused c' hdoes
    exact hdoes.points_of_unused hk hunused
  · rintro point (hnone | ⟨e, he⟩)
    · exact (c.run_runsTo point).idle_of_unbound hnone
    · have hends := c.run_runsTo point
      rw [he] at hends
      exact hends.idle_of_error

/-- A controller with an actuator whose variable is assigned a number, one whose variable stays
    null, and a point that no actuator uses. -/
def driven : Controller :=
  let c := ((Controller.ofSettings .default .zero).addCell (.real 0.0)).2
  let c := (c.publishPoint ⟨"Fan", "Supply", "Speed", "", .logical, 0, false⟩).2
  let c := (c.publishPoint ⟨"Valve", "Supply", "Position", "", .real, 0, true⟩).2
  let c := (c.publishPoint ⟨"Pump", "Supply", "Speed", "", .real, 0, true⟩).2
  let c := (c.attachActuator "fan" "Fan" "Supply" "Speed").2
  let c := (c.attachActuator "valve" "Valve" "Supply" "Position").2
  let c := (c.addProgram "main" "SET fan = 3").2
  (c.bindProgram .beginNewEnvironment "main").2.compile

theorem Reachable.write_back_exact_driven :
    Reachable driven
      ∧ (driven.run .beginNewEnvironment).1 = .ok [⟨"main", .normal⟩]
      ∧ (driven.run .beginNewEnvironment).2.exchange.points.map ControlPoint.overridden
          = #[true, false, true]
      ∧ (driven.run .beginNewEnvironment).2.cells = #[.real 1.0]
      ∧ ∃ deliveries : List Delivery,
          deliveries.filter (fun d => d.available = 0)
            = [⟨0, ⟨"Fan", "Supply", "Speed", "", .logical, 0, false⟩, 1.0⟩]
          ∧ deliveries.filter (fun d => d.available = 1) = []
          ∧ deliveries.filter (fun d => d.available = 2) = []
          ∧ deliveries.foldl (Delivery.take Exchange.writeCell) #[.real 0.0] = #[.real 1.0]
          ∧ ∀ (H : Type) (write : Exchange.Writer H) (host : H),
              driven.exchange.performAllOn write host
                  (driven.exchange.commands (driven.run .beginNewEnvironment).2.machine.store)
                = ((driven.run .beginNewEnvironment).2.exchange,
                    deliveries.foldl (Delivery.take write) host) := by
  have hreach : Reachable driven :=
    (((((((((Reachable.ofSettings .default .zero).does (.addCell _)).does (.publishPoint _)).does
      (.publishPoint _)).does (.publishPoint _)).does (.attachActuator _ _ _ _)).does
      (.attachActuator _ _ _ _)).does (.addProgram _ _)).does (.bindProgram _ _)).does .compile
  have hmade : driven.schedule.programs .beginNewEnvironment ≠ []
      ∧ driven.exchange.actuators = #[⟨"fan", 16, 0⟩, ⟨"valve", 17, 1⟩]
      ∧ driven.exchange.points[0]?
          = some ⟨"Fan", "Supply", "Speed", "", .logical, 0, false⟩
      ∧ (driven.run .beginNewEnvironment).1 = .ok [⟨"main", .normal⟩]
      ∧ (driven.run .beginNewEnvironment).2.exchange.points.map ControlPoint.overridden
          = #[true, false, true]
      ∧ driven.cells = #[.real 0.0]
      ∧ (driven.run .beginNewEnvironment).2.cells = #[.real 1.0]
      ∧ (driven.run .beginNewEnvironment).2.machine.store.value 16 = .number 3.0
      ∧ (driven.run .beginNewEnvironment).2.machine.store.value 17 = .null
      ∧ Storage.logical.coerce 3.0 = 1.0 := by
    decide +kernel
  obtain ⟨hbound, hactuators, hpoint, hok, hflags, hbefore, hcells, hfan, hvalve, hcoerce⟩ := hmade
  obtain ⟨-, m, deliveries, -, -, hstore, -, hwritten, hall, hused, hunused, -⟩ :=
    hreach.write_back_exact.1 _ _ hbound hok
  rw [hbefore, hcells] at hwritten
  rw [← hstore] at hall hused
  obtain ⟨p, hp, -, hfirst⟩ := hused ⟨"fan", 16, 0⟩ (by simp [hactuators])
  obtain ⟨_, -, -, hsecond⟩ := hused ⟨"valve", 17, 1⟩ (by simp [hactuators])
  obtain rfl := Option.some.inj (hpoint.symm.trans hp)
  rw [hfan] at hfirst
  rw [hvalve] at hsecond
  dsimp only at hfirst
  rw [hcoerce] at hfirst
  exact ⟨hreach, hok, hflags, hcells, deliveries, hfirst, hsecond,
    hunused 2 (by simp [hactuators]), hwritten.symm, hall⟩

end Controller

end Erl
