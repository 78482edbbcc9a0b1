/-
  Erl.Proofs.Controller.TrendHistory

  The history of a trend is that of the runs.

  A trend takes one sample at the end of each regular run of bound programs after which its
  variable holds a number, and at no other time.  So its samples are the newest of the numbers that
  the variable held at the ends of such runs, and while programs run they see the samples of the
  runs before.
-/

import Erl.Proofs.Controller.Lasting
import Erl.Proofs.Trend

namespace Erl

/-! ## What there is to sample -/

/-- The number that a value is. -/
def Value.number? : Value → Option Float
  | number x => some x
  | _ => none

namespace Controller

/-- The number that a request leaves to be sampled: the one that the variable of a name holds after
    a regular run of bound programs. -/
def sampleOf? (c : Controller) (variableName : String) : Request → Option Float
  | .run point =>
    match (c.run point).1, c.schedule.programs point with
    | .ok _, _ :: _ => ((c.run point).2.readGlobal variableName).toOption.bind Value.number?
    | _, _ => none
  | _ => none

/-- The numbers that the requests of a session leave to be sampled, in the order of the requests. -/
def samplesOf (c : Controller) (variableName : String) : List Request → List Float
  | [] => []
  | request :: rest =>
    (c.sampleOf? variableName request).toList
      ++ ((c.ask? request).map fun r => r.2.samplesOf variableName rest).getD []

end Controller

/-- A statistic of the samples of a trend, as a function of trends gives it. -/
def Trend.statistic (t : Trend) (f : TrendFunction) (hours : Float) (args : List Value) :
    Except EvalFault Value :=
  match sampleCount? args.head? with
  | .error fault => .error fault
  | .ok samples =>
    match f.statistic t.history samples hours with
    | some x => .ok (.number x)
    | none =>
      if t.history.samples.isEmpty then .error (.noSamples (.trend f) t.name)
      else .error (.fewSamples (.trend f) t.name t.history.size)

/-! ## One sample -/

namespace Controller

variable {c c' : Controller}

/-- A trend follows the variable of a name, and has the newest of some numbers as its samples. -/
structure Follows (c : Controller) (id : TrendId) (name variableName : String) (source : VariableId)
    (capacity : Nat) (past : List Float) : Prop where
  trend : c.image.trends[id]? = some ⟨name, source, ⟨capacity, past.reverse.take capacity⟩⟩
  named : c.image.findTrend? name = some id
  global : c.machine.store.global? variableName = some source

namespace Follows

variable {id : TrendId} {name variableName : String} {source : VariableId} {capacity : Nat}
  {past : List Float}

/-- Trends that are added, and whatever happens to variables, leave a trend as it is. -/
theorem mono (h : c.Follows id name variableName source capacity past)
    (htrends : c.image.trends.toList <+: c'.image.trends.toList)
    (hstore : c.machine.store.Lasts c'.machine.store) :
    c'.Follows id name variableName source capacity past :=
  ⟨getElem?_of_extends htrends h.trend, find?_of_extends htrends h.named, hstore.find? h.global⟩

/-- At the end of a regular run a trend takes a sample, if its variable holds a number. -/
theorem finishRun (h : c.Follows id name variableName source capacity past)
    (commands : List Command) :
    (c.finishRun commands).Follows id name variableName source capacity
      (past ++ (c.machine.store.value source).number?.toList) := by
  refine ⟨?_, h.named, h.global⟩
  show (c.image.trends.map (sampleTrend c.machine.store))[id]? = _
  rw [Array.getElem?_map, h.trend, Option.map_some, sampleTrend]
  cases c.machine.store.value source with
  | number x =>
    dsimp only
    rw [History.log_newest]
    rfl
  -- anything but a number is not sampled
  | _ => simp [Value.number?]

/-- A run adds what it leaves to be sampled. -/
theorem run (h : c.Follows id name variableName source capacity past) (point : CallingPoint) :
    (c.run point).2.Follows id name variableName source capacity
      (past ++ (c.sampleOf? variableName (.run point)).toList) := by
  have hruns := c.run_runsTo point
  have hread : (c.run point).2.readGlobal variableName
      = .ok ((c.run point).2.machine.store.value source) := by
    rw [Controller.readGlobal, Store.global?, hruns.lasts.find? h.global]
  rw [sampleOf?, hread]
  generalize c.run point = r at hruns
  obtain ⟨result, after⟩ := r
  -- any run but a regular one of bound programs leaves the trends as they are
  have hidle : ∀ after : Controller, after.image.trends = c.image.trends →
      c.machine.store.Lasts after.machine.store →
      after.Follows id name variableName source capacity (past ++ []) := by
    intro after htrends hstore
    rw [List.append_nil]
    exact h.mono (by rw [htrends]) hstore
  have hlasts := hruns.lasts
  dsimp only at hruns hlasts ⊢
  cases hruns with
  | @done store outcomes m commands hstarts hprograms hcommands =>
    obtain ⟨first, rest, hbound⟩ := List.exists_cons_of_ne_nil hstarts.bound
    rw [hbound]
    -- samples are taken from the machine that the programs left
    have hbefore : Follows { c with machine := m } id name variableName source capacity past :=
      h.mono List.prefix_rfl hlasts
    exact hbefore.finishRun commands
  | nothing _ _ hnone =>
    rw [hnone]
    exact hidle c rfl hlasts
  | _ => exact hidle _ rfl hlasts

/-- A request adds what it leaves to be sampled. -/
theorem ask? (h : c.Follows id name variableName source capacity past) {request : Request}
    {answer : Answer} (hask : c.ask? request = some (answer, c')) :
    c'.Follows id name variableName source capacity
      (past ++ (c.sampleOf? variableName request).toList) := by
  by_cases hdeed : request.deed = .run
  · cases request with
    | run point =>
      cases hask
      exact h.run point
    | _ => cases hdeed
  · have hnone : c.sampleOf? variableName request = none := by
      cases request <;> first | rfl | exact absurd rfl hdeed
    rw [hnone, Option.toList_none, List.append_nil]
    have hlasts := (ask?_later hask).lasts
    -- a publication leaves the trends as they are, and anything else may add to them
    cases request with
    | publishPoint p =>
      cases hask
      exact h.mono List.prefix_rfl hlasts
    | publishOutput p =>
      cases hask
      exact h.mono List.prefix_rfl hlasts
    | publishInternal p =>
      cases hask
      exact h.mono List.prefix_rfl hlasts
    | run point => exact absurd rfl hdeed
    | _ => exact h.mono (ask?_prepares hask rfl).trends hlasts

/-- The requests of a session add what they leave to be sampled. -/
theorem askEach? (h : c.Follows id name variableName source capacity past)
    {requests : List Request} {answers : List Answer}
    (hasks : c.askEach? requests = some (answers, c')) :
    c'.Follows id name variableName source capacity
      (past ++ c.samplesOf variableName requests) := by
  induction requests generalizing c past answers with
  | nil =>
    cases hasks
    rw [samplesOf, List.append_nil]
    exact h
  | cons request rest ih =>
    obtain ⟨answer, answers', c₁, hfirst, hrest, -⟩ := askEach?_cons hasks
    rw [samplesOf, hfirst, Option.map_some, Option.getD_some, ← List.append_assoc]
    exact ih (h.ask? hfirst) hrest

end Follows

/-- A trend that may be declared has a new name and a variable. -/
theorem trendSource_ok {name variableName : String} {capacity : Nat} {source : VariableId}
    (h : c.trendSource name variableName capacity = .ok source) :
    c.image.findTrend? name = none
      ∧ c.machine.store.global? variableName = some source := by
  obtain ⟨_, -, h⟩ := attempt_bind h
  cases hname : c.image.findTrend? name with
  | some id =>
    rw [hname] at h
    cases h
  | none =>
    rw [hname] at h
    cases hglobal : c.machine.store.global? variableName with
    | none =>
      rw [hglobal] at h
      cases h
    | some found =>
      rw [hglobal] at h
      change (if capacity = 0 then Except.error _ else Except.ok found) = Except.ok source at h
      split at h
      · cases h
      · cases h
        exact ⟨rfl, rfl⟩

/-- A trend that is declared follows its variable and has no samples yet. -/
theorem follows_of_declareTrend? {name variableName : String} {capacity : Nat} {id : TrendId}
    (h : c.declareTrend? name variableName capacity = some (.ok id, c')) :
    ∃ source, c'.Follows id name variableName source capacity [] := by
  unfold declareTrend? at h
  split at h
  · cases h
  · next source hsource =>
    obtain ⟨history, hhistory, heq⟩ := Option.map_eq_some_iff.1 h
    cases heq
    unfold History.ofCapacity? at hhistory
    split at hhistory
    · cases hhistory
      obtain ⟨hnew, hglobal⟩ := trendSource_ok hsource
      rw [c.image.trendCatalog.enter_of_none ⟨name, source, .empty capacity⟩ hnew]
      refine ⟨source, ?_, Catalog.find?_push_of_none hnew, hglobal⟩
      show (c.image.trends.push ⟨name, source, .empty capacity⟩)[c.image.trends.size]? = _
      simp [History.empty]
    · cases hhistory

end Controller

/-! ## What programs see -/

/-- A function of a trend is a statistic of the samples that the trend has in the image. -/
theorem Image.evaluate_trend {img : Image} {vars : Nat}
    (hrange : NodesInRange vars img.trends.size img.nodes) {e : NodeId} {f : TrendFunction}
    {id : TrendId} {rest : List Operand}
    (hn : img.nodes[e]? = some ⟨.call (.trend f), .trendRef id :: rest⟩) {t : Trend}
    (ht : img.trends[id]? = some t) {program : String} {args : List Value} {m m' : Machine}
    (hargs : readOperands (img.evaluate program) rest m = .ok (.ok args) m') :
    img.evaluate program e m
      = .ok (.ofExcept (t.statistic f img.settings.timestepHours args)) m' := by
  -- the trend is not evaluated but handed to the function
  have hread : readOperands (img.evaluate program) (.trendRef id :: rest) m
      = .ok (.ok (.trendRef id :: args)) m' :=
    (readOperands_cons_eq_ok_iff _).2 ⟨_, args, m, rfl, rfl, hargs, rfl⟩
  have hcall : callTrend img f (.trendRef id :: args)
      = t.statistic f img.settings.timestepHours args := by
    rw [callTrend, ht]
    rfl
  rw [img.evaluate_eq program hn (hrange.isForest e _ hn),
    Node.evaluate_call _ _ _ (hrange e _ hn).arity, Exec.bind_ok hread]
  show EStateM.Result.ok (Value.ofExcept (callTrend img f (.trendRef id :: args))) m' = _
  rw [hcall]

namespace Controller

variable {c : Controller}

/-- The variables after a run that starts are what its programs make of them in the image as it was
    before the run. -/
theorem Starts.store_run {point : CallingPoint} {store : Store} (h : c.Starts point store) :
    (c.run point).2.machine.store
      = (c.image.runAll { c.machine with store } (c.schedule.programs point)).2.2.store := by
  rw [h.run_eq, runPrograms]
  generalize c.image.runAll { c.machine with store } (c.schedule.programs point) = r
  obtain ⟨outcomes, stopped, m⟩ := r
  rcases stopped with _ | ⟨name, interrupt⟩
  · dsimp only
    split <;> rfl
  · cases interrupt <;> rfl

/-- The history of a trend is that of the runs.

    After a trend was declared, whatever is asked of the controller, its samples are the newest of
    the numbers that its variable held at the ends of regular runs of bound programs, newest first
    and as many as it has room for.  The programs of the next run are run in the image as it is
    then: whatever they have done so far, a function of the trend is a statistic of the samples
    from before the run. -/
theorem Reachable.trend_is_run_history {c c₀ c' : Controller} (h : Reachable c)
    {name variableName : String} {capacity : Nat} {id : TrendId} {requests : List Request}
    {answers : List Answer}
    (hdeclared : c.declareTrend? name variableName capacity = some (.ok id, c₀))
    (hasks : c₀.askEach? requests = some (answers, c')) :
    ∃ t : Trend, c'.trend? name = some t ∧ c'.image.trends[id]? = some t
      ∧ t.name = name ∧ c'.machine.store.global? variableName = some t.source
      ∧ t.history = ⟨capacity, (c₀.samplesOf variableName requests).reverse.take capacity⟩
      ∧ (∀ (point : CallingPoint) (store : Store), c'.Starts point store →
          (c'.run point).2.machine.store
            = (c'.image.runAll { c'.machine with store } (c'.schedule.programs point)).2.2.store)
      ∧ ∀ (program : String) (e : NodeId) (f : TrendFunction) (rest : List Operand)
          (args : List Value) (m m' : Machine),
          c'.image.nodes[e]? = some ⟨.call (.trend f), .trendRef id :: rest⟩ →
          readOperands (c'.image.evaluate program) rest m = .ok (.ok args) m' →
          c'.image.evaluate program e m
            = .ok (.ofExcept (t.statistic f c'.image.settings.timestepHours args)) m' := by
  obtain ⟨source, hfollows⟩ := follows_of_declareTrend? hdeclared
  obtain ⟨htrend, hnamed, hglobal⟩ := hfollows.askEach? hasks
  rw [List.nil_append] at htrend
  have hreach : Reachable c' :=
    (h.does (.declareTrend hdeclared)).later (askEach?_later hasks)
  refine ⟨_, ?_, htrend, rfl, hglobal, rfl, fun point store hstarts => hstarts.store_run, ?_⟩
  · rw [trend?, hnamed]
    exact htrend
  · intro program e f rest args m m' hn hargs
    exact Image.evaluate_trend hreach.wellFormed.nodes hn htrend hargs

/-- A controller with a variable and a program that counts it up and writes down its average. -/
def counting : Controller :=
  let c := ((Controller.ofSettings .default .zero).addGlobal "n" .user).2
  let c := (c.addGlobal "average" .user).2
  let c := (c.addProgram "main" "SET n = n + 1
SET average = @TrendAverage nTrend 2").2
  (c.bindProgram .beginNewEnvironment "main").2

/-- Runs with regular ends, before and between which the host assigns the variable. -/
def countingRuns : List Request :=
  [.compile, .writeGlobal "n" (.number 1.0), .run .beginNewEnvironment,
    .run .beginNewEnvironment, .run .endOfZoneSizing, .writeGlobal "N" (.number 7.0),
    .run .beginNewEnvironment]

theorem Reachable.trend_is_run_history_counting :
    ∃ c₀ answers c' t,
      counting.declareTrend? "nTrend" "n" 2 = some (.ok 0, c₀)
        ∧ c₀.samplesOf "n" countingRuns = [2.0, 3.0, 8.0]
        ∧ c₀.askEach? countingRuns = some (answers, c')
        ∧ c'.trend? "nTrend" = some t ∧ t.history = ⟨2, [8.0, 3.0]⟩
        ∧ (c'.readGlobal "average").toOption = some (.number 2.5)
        ∧ ∀ m, c'.image.evaluate "main" 1 m = .ok (.number 5.5) m := by
  -- one evaluation of the session gives the samples, the node and the average
  have hmade : (counting.declareTrend? "nTrend" "n" 2).bind (fun r =>
      (r.2.askEach? countingRuns).map fun s =>
        (r.1.toOption, r.2.samplesOf "n" countingRuns, s.2.image.nodes[1]?,
          s.2.image.settings.timestepHours, (s.2.readGlobal "average").toOption))
      = some (some 0, [2.0, 3.0, 8.0],
          some ⟨.call (.trend .average), [.trendRef 0, .constant (.number 2.0)]⟩, 0.25,
          some (.number 2.5)) := by
    decide +kernel
  obtain ⟨⟨declared, c₀⟩, hdeclared, hruns⟩ := Option.bind_eq_some_iff.1 hmade
  obtain ⟨⟨answers, c'⟩, hasks, heq⟩ := Option.map_eq_some_iff.1 hruns
  simp only [Prod.mk.injEq] at heq
  obtain ⟨hid, hsamples, hnode, hhours, haverage⟩ := heq
  obtain rfl : declared = .ok 0 := by
    cases declared <;> simp_all [Except.toOption]
  have hreach : Reachable counting :=
    (((Reachable.ofSettings .default .zero).does (.addGlobal _ _)).does (.addGlobal _ _)).does
      (.addProgram _ _) |>.does (.bindProgram _ _)
  obtain ⟨t, ht, -, -, -, hhistory, -, hvalue⟩ :=
    Reachable.trend_is_run_history hreach hdeclared hasks
  have hnewest : t.history = ⟨2, [8.0, 3.0]⟩ := by
    rw [hhistory, hsamples]
    rfl
  refine ⟨c₀, answers, c', t, hdeclared, hsamples, hasks, ht, hnewest, haverage, fun m => ?_⟩
  have hcount : sampleCount? (some (.number 2.0)) = .ok (some 2) := by
    rw [sampleCount?, if_pos (by decide +kernel),
      show Number.toCount (Number.round 2.0) = 2 by decide +kernel]
  have hstatistic : TrendFunction.average.statistic ⟨2, [8.0, 3.0]⟩ (some 2) 0.25 = some 5.5 := by
    decide +kernel
  rw [hvalue "main" 1 .average _ [.number 2.0] m m hnode rfl, hhours, Trend.statistic, hnewest,
    List.head?_cons, hcount]
  dsimp only
  rw [hstatistic]
  rfl

end Controller

end Erl
