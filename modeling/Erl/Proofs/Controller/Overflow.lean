/-
  Erl.Proofs.Controller.Overflow

  Where runs get numbers from that are not finite.

  As long as the host feeds a controller finite numbers, a run comes to a number that is not finite
  exactly if one leaks: a literal, a statistic that adds up the samples of a trend, or the reply of
  a routine or of an evaluator of curves that the host brings.  If none does, variables and samples
  stay finite, so nothing is left for the next run to come across.
-/

import Erl.Proofs.Controller.Leak
import Erl.Proofs.Controller.Reachable
import Erl.Proofs.Controller.TrendHistory

namespace Erl

/-! ## Finite numbers in tables -/

theorem Value.isFinite_iff (v : Value) : v.IsFinite ↔ ∀ x ∈ v.number?, x.isFinite = true := by
  cases v with
  | number x => exact ⟨fun h y hy => h y (by cases hy; rfl), fun h y hy => h y (by cases hy; rfl)⟩
  | _ => simp [Value.IsFinite, Value.number?]

theorem Store.isFinite_iff (t : Store) : t.IsFinite ↔ ∀ x ∈ t.entries, x.value.IsFinite := by
  constructor
  · intro h x hx
    obtain ⟨id, hid⟩ := Array.mem_iff_getElem?.1 hx
    have hvalue := h id
    rwa [Store.value, hid] at hvalue
  · intro h id
    rw [Store.value]
    split
    · next x hx => exact h x (Array.mem_of_getElem? hx)
    · exact Value.isFinite_null

instance (v : Value) : Decidable v.IsFinite :=
  decidable_of_iff _ v.isFinite_iff.symm

instance (t : Store) : Decidable t.IsFinite :=
  decidable_of_iff _ t.isFinite_iff.symm

instance (h : History Float) : Decidable h.IsFinite :=
  inferInstanceAs (Decidable (∀ x ∈ h.samples, x.isFinite = true))

instance (img : Image) : Decidable img.HasFiniteSamples :=
  inferInstanceAs (Decidable (∀ t ∈ img.trends, t.history.IsFinite))

/-- What the host has for ties is finite. -/
def Exchange.ReadsFinite (cells : Cells) (sources : Array SourcePoint) (ties : Array Tie) : Prop :=
  ∀ tie ∈ ties, ∀ p ∈ sources[tie.available]?, (cells.read p.cell).isFinite = true

instance (cells : Cells) (sources : Array SourcePoint) (ties : Array Tie) :
    Decidable (Exchange.ReadsFinite cells sources ties) :=
  inferInstanceAs (Decidable
    (∀ tie ∈ ties, ∀ p ∈ sources[tie.available]?, (cells.read p.cell).isFinite = true))

/-- Finite numbers that are read from ties leave variables finite. -/
theorem Exchange.ReadsFinite.foldl {cells : Cells} {sources : Array SourcePoint} {ties : Array Tie}
    (h : ReadsFinite cells sources ties) {t : Store} (ht : t.IsFinite) :
    (ties.foldl (readTie cells sources) t).IsFinite := by
  refine Array.foldl_induction (fun _ (t : Store) => t.IsFinite) ht fun i t ht => ?_
  unfold readTie
  split
  · next p hp => exact ht.set (Value.isFinite_number (h _ (Array.getElem_mem i.2) p hp)) _
  · exact ht

namespace Controller

variable {c c' : Controller} {point : CallingPoint}

/-- All numbers in variables and all samples are finite. -/
structure HoldsFinite (c : Controller) : Prop where
  store : c.machine.store.IsFinite
  samples : c.image.HasFiniteSamples

instance (c : Controller) : Decidable c.HoldsFinite :=
  decidable_of_iff (c.machine.store.IsFinite ∧ c.image.HasFiniteSamples)
    ⟨fun h => ⟨h.1, h.2⟩, fun h => ⟨h.1, h.2⟩⟩

/-- The numbers that the host has for sensors and internal variables are finite. -/
structure SourcesFinite (c : Controller) : Prop where
  sensors : Exchange.ReadsFinite c.cells c.exchange.outputs c.exchange.sensors
  internalVariables :
    Exchange.ReadsFinite c.cells c.exchange.internals c.exchange.internalVariables

/-- A run of a controller with finite numbers starts from finite numbers. -/
theorem HoldsFinite.starts (h : c.HoldsFinite) (hsources : c.SourcesFinite) {store : Store}
    (hstarts : c.Starts point store) : store.IsFinite := by
  rw [Exchange.refresh?_eq_some hstarts.refreshed]
  exact hsources.internalVariables.foldl (hsources.sensors.foldl h.store)

/-- A sample of a finite number leaves a history finite. -/
theorem sampleTrend_isFinite {store : Store} (hstore : store.IsFinite) {t : Trend}
    (ht : t.history.IsFinite) : (sampleTrend store t).history.IsFinite := by
  unfold sampleTrend
  split
  · next x hx => exact ht.log (hstore t.source x hx)
  · exact ht

/-- A run leaves the trends as they are, or they take a sample of what it leaves in variables. -/
theorem RunsTo.trends {r : Except RunError (List Outcome)} (h : RunsTo c point r c') :
    c'.image.trends = c.image.trends
      ∨ c'.image.trends = c.image.trends.map (sampleTrend c'.machine.store) := by
  cases h with
  | done => exact .inr rfl
  | _ => exact .inl rfl

/-! ## Runs -/

/-- A run comes to a value. -/
def Yields (c : Controller) (point : CallingPoint) (v : Value) : Prop :=
  ∃ program e m, c.Evaluates point program e m ∧ c.image.Yields program v e m

/-- A run comes to a number that is not checked. -/
def Leaks (c : Controller) (point : CallingPoint) (leak : Leak) (x : Float) : Prop :=
  ∃ program e m, c.Evaluates point program e m ∧ c.image.Leaks program leak x e m

/-- Nothing leaks that is not finite. -/
def IsTight (c : Controller) (point : CallingPoint) : Prop :=
  ∀ leak x, c.Leaks point leak x → x.isFinite = true

theorem not_isTight_iff :
    ¬ c.IsTight point ↔ ∃ leak x, c.Leaks point leak x ∧ x.isFinite = false := by
  simp only [IsTight, not_forall, Bool.not_eq_true, exists_prop]

/-- If nothing leaks that is not finite, variables are finite wherever a run evaluates expressions,
    and variables and samples are finite at its end. -/
theorem HoldsFinite.run (h : c.HoldsFinite) (hforest : IsForest c.image.nodes)
    (hsources : c.SourcesFinite) (htight : c.IsTight point) :
    (c.run point).2.HoldsFinite
      ∧ ∀ program e m, c.Evaluates point program e m → m.store.IsFinite := by
  obtain ⟨hstore, hplaces⟩ := c.run_invariant (P := Store.IsFinite)
    (fun store hstarts => h.starts hsources hstarts)
    (fun program e m hevaluates hm v m' hvalue target =>
      hm.set (Image.evaluate_isFinite hforest h.samples hm
        (fun leak x hleaks => htight leak x ⟨program, e, m, hevaluates, hleaks⟩) hvalue) target)
    h.store
  refine ⟨⟨hstore, ?_⟩, hplaces⟩
  rcases (c.run_runsTo point).trends with hsame | hsampled
  · rw [Image.HasFiniteSamples, hsame]
    exact h.samples
  · rw [Image.HasFiniteSamples, hsampled]
    intro t ht
    obtain ⟨t', ht', rfl⟩ := Array.mem_map.1 ht
    exact sampleTrend_isFinite hstore (h.samples t' ht')

/-- If nothing leaks that is not finite, a run comes to no number that is not. -/
theorem HoldsFinite.yields (h : c.HoldsFinite) (hforest : IsForest c.image.nodes)
    (hsources : c.SourcesFinite) (htight : c.IsTight point) {v : Value}
    (hyields : c.Yields point v) : v.IsFinite := by
  obtain ⟨program, e, m, hevaluates, hyields⟩ := hyields
  have hm := (h.run hforest hsources htight).2 program e m hevaluates
  exact hyields.isFinite hforest h.samples hm fun leak x hleaks =>
    htight leak x ⟨program, e, m, hevaluates, hleaks⟩

/-! ## Sessions -/

/-- What an operation puts into variables and trends is finite. -/
structure WritesFinite (c c' : Controller) : Prop where
  value : ∀ id x, c'.machine.store.value id = .number x →
    c.machine.store.value id = .number x ∨ x.isFinite = true
  sample : ∀ t ∈ c'.image.trends, t ∈ c.image.trends ∨ t.history.IsFinite

theorem HoldsFinite.writesFinite (h : c'.HoldsFinite) (c : Controller) : WritesFinite c c' :=
  ⟨fun id x hx => .inr (h.store id x hx), fun t ht => .inr (h.samples t ht)⟩

theorem HoldsFinite.of_writesFinite (h : c.HoldsFinite) (hwrites : WritesFinite c c') :
    c'.HoldsFinite := by
  constructor
  · intro id x hx
    rcases hwrites.value id x hx with hold | hnew
    · exact h.store id x hold
    · exact hnew
  · intro t ht
    rcases hwrites.sample t ht with hold | hnew
    · exact h.samples t hold
    · exact hnew

/-- What a host can make of a controller without a model if it feeds it finite numbers only. -/
inductive FedFinite : Controller → Prop where
  | ofSettings (settings : Settings) (stream : RandomStream) :
      FedFinite (ofSettings settings stream)
  /-- An operation that puts finite numbers into variables and trends, if any. -/
  | does {c c' : Controller} : FedFinite c → Does c c' → WritesFinite c c' → FedFinite c'
  /-- A run with finite sources in which nothing leaks that is not finite, whatever it puts into
      variables and trends. -/
  | run {c : Controller} {point : CallingPoint} : FedFinite c → c.SourcesFinite →
      c.IsTight point → FedFinite (c.run point).2

namespace FedFinite

theorem reachable (h : FedFinite c) : Reachable c := by
  induction h with
  | ofSettings settings stream => exact .ofSettings settings stream
  | does _ hdoes _ ih => exact ih.does hdoes
  | run _ _ _ ih => exact ih.does (.run _)

/-- A controller that is fed finite numbers holds finite numbers. -/
theorem holdsFinite (h : FedFinite c) : c.HoldsFinite := by
  induction h with
  | ofSettings settings stream =>
    have hclock : clockVariables.IsFinite := by decide
    exact ⟨hclock, by
      simp [Image.HasFiniteSamples, Controller.ofSettings, Image.trends, Catalog.empty]⟩
  | does _ _ hwrites ih => exact ih.of_writesFinite hwrites
  | run hfed hsources htight ih =>
    exact (ih.run hfed.reachable.isSound.isForest hsources htight).1

/-- Where runs get numbers from that are not finite.

    In a run of a controller that is fed finite numbers, an expression comes to a number that is not
    finite exactly if one leaks.  That is a literal of a program, a statistic that adds up the
    samples of a trend, or what routines or an evaluator of curves reply; a reply can be one only if
    the host brings routines of its own, or an evaluator that is not that of a library.  If nothing
    leaks that is not finite, variables are finite wherever an expression is evaluated, and the run
    leaves a controller with finite numbers.  At any time, what an operator or a function computes
    is an error or a number, and the number is finite if the variables are and nothing leaks within
    the expression that is not. -/
theorem overflow_iff_leak (h : FedFinite c) (hsources : c.SourcesFinite) (point : CallingPoint) :
    ((∃ x, c.Yields point (.number x) ∧ x.isFinite = false) ↔
        ∃ leak x, c.Leaks point leak x ∧ x.isFinite = false)
      ∧ (∀ leak x, c.Leaks point leak x → x.isFinite = false →
          c.image.Supplies x leak
            ∧ (leak = .literal ∨ ∃ f os, f.leak? = some leak ∧ ⟨.call f, os⟩ ∈ c.image.nodes)
            ∧ (∀ f, leak = .reply f → c.image.routines ≠ .standard)
            ∧ (leak = .curve → ∀ l : Curves, c.image.curves ≠ l.evaluator))
      ∧ (c.IsTight point → FedFinite (c.run point).2 ∧ (c.run point).2.HoldsFinite
          ∧ ∀ program e m, c.Evaluates point program e m → m.store.IsFinite)
      ∧ ∀ program e n m v m', c.image.nodes[e]? = some n → n.operation.computes = true →
          c.image.evaluate program e m = .ok v m' →
          v.isError = true ∨ ∃ x, v = .number x ∧ (m.store.IsFinite →
            (∀ leak y, c.image.Leaks program leak y e m → y.isFinite = true) →
            x.isFinite = true) := by
  have hforest := h.reachable.isSound.isForest
  have hholds := h.holdsFinite
  refine ⟨⟨?_, ?_⟩, ?_, ?_, ?_⟩
  · rintro ⟨x, hyields, hx⟩
    -- otherwise all that the run comes to is finite
    refine not_isTight_iff.1 fun htight => ?_
    have hfinite := hholds.yields hforest hsources htight hyields x rfl
    rw [hx] at hfinite
    cases hfinite
  · rintro ⟨leak, x, ⟨program, e, m, hevaluates, hleaks⟩, hx⟩
    exact ⟨x, ⟨program, e, m, hevaluates, hleaks.yields⟩, hx⟩
  · rintro leak x ⟨program, e, m, -, hleaks⟩ hx
    have hsupplies := hleaks.supplies hforest
    refine ⟨hsupplies, hleaks.mem, ?_, ?_⟩
    · -- the standard routines check what they reply
      rintro f rfl hroutines
      rw [hsupplies.isFinite_of_standard hroutines] at hx
      cases hx
    · -- so do the curves of a library
      rintro rfl l hcurves
      rw [hsupplies.isFinite_of_library hcurves] at hx
      cases hx
  · intro htight
    obtain ⟨hafter, hplaces⟩ := hholds.run hforest hsources htight
    exact ⟨h.run hsources htight, hafter, hplaces⟩
  · intro program e n m v m' hn hcomputes hvalue
    rcases Image.evaluate_isResult hforest hn hcomputes hvalue with herror | ⟨x, rfl⟩
    · exact .inl herror
    · exact .inr ⟨x, rfl, fun hm hleaks =>
        Image.evaluate_isFinite hforest hholds.samples hm hleaks hvalue x rfl⟩

end FedFinite

-- what an evaluator of the host replies is stored as it is
example :
    let c := (Controller.ofSettings .default .zero).installCurves
      ⟨fun _ _ => .ok (1.0 / 0.0), fun _ => none⟩
    let c := (c.addGlobal "y" .user).2
    let c := (c.addProgram "Main" "SET y = @CurveValue 1 2").2
    let c := (c.bindProgram .beginNewEnvironment "Main").2.compile
    (c.run .beginNewEnvironment).2.readGlobal "y" = .ok (.number (1.0 / 0.0)) := by
  decide +kernel

/-! ## Readings that add up -/

/-- Declares a trend of readings. -/
def trendPower (c : Controller) : Controller :=
  ((c.declareTrend? "recent" "power" 4).getD (.ok 0, c)).2

/-- Runs the programs of a timestep. -/
def runTimestep (c : Controller) : Controller :=
  (c.run .beginTimestepBeforePredictor).2

namespace FedFinite

theorem trendPower (h : FedFinite c) (hholds : c.trendPower.HoldsFinite) :
    FedFinite c.trendPower := by
  unfold Controller.trendPower at hholds ⊢
  cases hdeclared : c.declareTrend? "recent" "power" 4 with
  | none => exact h
  | some r =>
    rw [hdeclared] at hholds
    exact h.does (.declareTrend hdeclared) (hholds.writesFinite c)

theorem runTimestep (h : FedFinite c) (hholds : c.runTimestep.HoldsFinite) :
    FedFinite c.runTimestep :=
  h.does (.run _) (hholds.writesFinite c)

end FedFinite

/-- A controller whose sensor reads a large number. -/
def metered : Controller :=
  let c := ((Controller.ofSettings .default .zero).addCell (.real 1e308)).2
  let c := c.publishOutput ⟨"Power", "Plant", "W", 0⟩
  let c := (c.attachSensor "power" "Power" "Plant").2
  (c.addGlobal "y" .user).2

/-- A program that adds up the last two readings and asks for the sign of the sum. -/
def totalSource : String := "SET total = @TrendSum recent 2
IF total > 0
SET y = 1
ELSE
SET y = 2
ENDIF"

/-- The controller with the trend and the program. -/
def totalling : Controller :=
  let c := (metered.trendPower.addProgram "Main" totalSource).2
  (c.bindProgram .beginTimestepBeforePredictor "Main").2.compile

/-- The controller after two runs. -/
def totallingTwice : Controller :=
  totalling.runTimestep.runTimestep

/-- One evaluation of all steps, of the code and of one run more. -/
theorem totalling_steps :
    (metered.HoldsFinite ∧ metered.trendPower.HoldsFinite
        ∧ (metered.trendPower.addProgram "Main" totalSource).2.HoldsFinite
        ∧ ((metered.trendPower.addProgram "Main" totalSource).2.bindProgram
            .beginTimestepBeforePredictor "Main").2.HoldsFinite
        ∧ totalling.HoldsFinite ∧ totalling.runTimestep.HoldsFinite ∧ totallingTwice.HoldsFinite)
      ∧ (Exchange.ReadsFinite totallingTwice.cells totallingTwice.exchange.outputs
            totallingTwice.exchange.sensors
        ∧ Exchange.ReadsFinite totallingTwice.cells totallingTwice.exchange.internals
            totallingTwice.exchange.internalVariables
        ∧ totallingTwice.image.nodes
            = #[⟨.call (.trend .sum), [.trendRef 0, .constant (.number 2.0)]⟩,
              ⟨.binary .greaterThan, [.variableRef 18, .constant (.number 0.0)]⟩,
              ⟨.literal, [.constant (.number 1.0)]⟩, ⟨.literal, [.constant (.number 2.0)]⟩])
      ∧ (totallingTwice.run .beginTimestepBeforePredictor).1 = .ok [⟨"Main", .normal⟩]
      ∧ (totallingTwice.run .beginTimestepBeforePredictor).2.readInProgram "Main" "total"
          = .ok (.number (1.0 / 0.0))
      ∧ (totallingTwice.run .beginTimestepBeforePredictor).2.readGlobal "y"
          = .ok (.number 1.0)
      ∧ ¬ (totallingTwice.run .beginTimestepBeforePredictor).2.HoldsFinite := by
  decide +kernel

theorem FedFinite.totallingTwice : FedFinite totallingTwice := by
  obtain ⟨⟨hmetered, htrend, hprogram, hbind, htotalling, hfirst, hsecond⟩, -⟩ := totalling_steps
  have hfed : FedFinite metered :=
    ((((FedFinite.ofSettings .default .zero).does (.addCell (.real 1e308))
      ⟨fun _ _ hx => .inl hx, fun _ ht => .inl ht⟩).does
      (.publishOutput ⟨"Power", "Plant", "W", 0⟩)
      ⟨fun _ _ hx => .inl hx, fun _ ht => .inl ht⟩).does (.attachSensor "power" "Power" "Plant")
      (HoldsFinite.writesFinite (by decide +kernel) _)).does (.addGlobal "y" .user)
      (hmetered.writesFinite _)
  have hfed : FedFinite totalling :=
    (((hfed.trendPower htrend).does (.addProgram "Main" totalSource)
      (hprogram.writesFinite _)).does (.bindProgram .beginTimestepBeforePredictor "Main")
      (hbind.writesFinite _)).does .compile (htotalling.writesFinite _)
  exact (hfed.runTimestep hfirst).runTimestep hsecond

theorem FedFinite.overflow_iff_leak_totallingTwice :
    FedFinite Controller.totallingTwice ∧ Controller.totallingTwice.SourcesFinite
      ∧ (∃ x, Controller.totallingTwice.Yields .beginTimestepBeforePredictor (.number x)
          ∧ x.isFinite = false)
      ∧ ∃ x, Controller.totallingTwice.Leaks .beginTimestepBeforePredictor (.statistic .sum) x
          ∧ x.isFinite = false := by
  have hfed := FedFinite.totallingTwice
  obtain ⟨-, ⟨hsensors, hinternals, hnodes⟩, -, -, -, hlast⟩ := totalling_steps
  obtain ⟨hiff, hsource, htight, -⟩ :=
    FedFinite.overflow_iff_leak hfed ⟨hsensors, hinternals⟩ .beginTimestepBeforePredictor
  -- the run leaves a number that is not finite, so one leaks
  obtain ⟨leak, x, hleaks, hx⟩ := not_isTight_iff.1 fun hall => hlast (htight hall).2.1
  refine ⟨hfed, ⟨hsensors, hinternals⟩, hiff.2 ⟨leak, x, hleaks, hx⟩, x, ?_, hx⟩
  obtain ⟨hsupplies, rfl | ⟨f, os, hleak, hcall⟩, -, -⟩ := hsource leak x hleaks hx
  · -- all literals are finite
    obtain ⟨n, hn, ho⟩ := hsupplies
    obtain rfl | rfl | rfl : x = 0.0 ∨ x = 1.0 ∨ x = 2.0 := by
      rw [hnodes] at hn
      simp only [List.mem_toArray, List.mem_cons, List.not_mem_nil, or_false] at hn
      rcases hn with rfl | rfl | rfl | rfl <;> simp at ho <;> simp [ho]
    all_goals exact absurd hx (by decide +kernel)
  · -- the only call is that of the sum
    rw [hnodes] at hcall
    obtain ⟨rfl, -⟩ : f = .trend .sum ∧ os = [.trendRef 0, .constant (.number 2.0)] := by
      simpa using hcall
    cases hleak
    exact hleaks

/-- Readings that are finite can add up to a number that is not, and the program takes it for a
    number. -/
theorem totallingTwice_overflows :
    FedFinite totallingTwice
      ∧ (totallingTwice.run .beginTimestepBeforePredictor).1 = .ok [⟨"Main", .normal⟩]
      ∧ (totallingTwice.run .beginTimestepBeforePredictor).2.readInProgram "Main" "total"
          = .ok (.number (1.0 / 0.0))
      ∧ (totallingTwice.run .beginTimestepBeforePredictor).2.readGlobal "y"
          = .ok (.number 1.0) := by
  obtain ⟨-, -, hrun, htotal, hy, -⟩ := totalling_steps
  exact ⟨FedFinite.totallingTwice, hrun, htotal, hy⟩

end Controller

end Erl
