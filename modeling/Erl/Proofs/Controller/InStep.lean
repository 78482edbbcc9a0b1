/-
  Erl.Proofs.Controller.InStep

  Two controllers that run alike.

  If variables correspond and programs do alike, a run of a calling point does the same for two
  controllers: it reads the same sources, ends in the same way, gives the same commands and takes
  the same samples.  So the two stay in step, for any calling points one after another.
-/

import Erl.Proofs.Controller.Reachable
import Erl.Proofs.Controller.Settled
import Erl.Proofs.Exchange
import Erl.Proofs.Machine.Simulation

namespace Erl

/-! ## Lists that agree -/

section Lists

variable {α β γ : Type} {R : α → β → Prop} {xs : List α} {ys : List β}

/-- What agrees with the same agrees. -/
theorem forall₂_join {S : γ → β → Prop} {T : α → γ → Prop} {zs : List γ}
    (h : List.Forall₂ R xs ys) (h' : List.Forall₂ S zs ys)
    (hT : ∀ x y z, R x y → S z y → T x z) : List.Forall₂ T xs zs := by
  induction h generalizing zs with
  | nil =>
    cases h'
    exact .nil
  | cons hxy _ ih =>
    cases h' with
    | cons hzy hrest => exact .cons (hT _ _ _ hxy hzy) (ih hrest)

end Lists

/-! ## Exchange -/

namespace Exchange.Alike

variable {R : Pairing} {b b' : Exchange} (h : b.Alike R.rel b')
include h

omit h in
theorem lead_eq {ties ties' : Array Tie}
    (hties : List.Forall₂ (Tie.Alike R.rel) ties.toList ties'.toList) (published : Nat) :
    lead ties published = lead ties' published := by
  have hmap := map_eq_of_forall₂ hties fun t t' ht => ht.available
  have hlead : ∀ ties : Array Tie, lead ties published
      = (ties.toList.map Tie.available).all fun available => available < published := by
    intro ties
    rw [lead, ← Array.all_toList, List.all_map]
    rfl
  rw [hlead, hlead, hmap]

/-- The same sources are read into variables that correspond. -/
theorem refresh? (cells : Cells) {t t' : Store} (ht : t.Agrees R t') :
    Option.Rel (Store.Agrees R) (b.refresh? cells t) (b'.refresh? cells t') := by
  have hread : ∀ (sources : Array SourcePoint) ⦃t t' : Store⦄, t.Agrees R t' →
      ∀ ⦃tie tie' : Tie⦄, Tie.Alike R.rel tie tie' →
        (readTie cells sources t tie).Agrees R (readTie cells sources t' tie') := by
    intro sources t t' ht tie tie' htie
    unfold readTie
    rw [htie.available]
    cases sources[tie'.available]? with
    | some p => exact ht.set htie.target _
    | none => exact ht
  have hall : (b.refresh cells t).Agrees R (b'.refresh cells t') := by
    unfold refresh
    rw [outputs, internals, h.outputCatalog, h.internalCatalog, ← Array.foldl_toList,
      ← Array.foldl_toList, ← Array.foldl_toList, ← Array.foldl_toList]
    exact List.rel_foldl (hread _) (List.rel_foldl (hread _) ht h.sensors) h.internalVariables
  unfold Exchange.refresh?
  rw [lead_eq h.sensors, lead_eq h.internalVariables, outputs, internals, h.outputCatalog,
    h.internalCatalog]
  split
  · exact .some hall
  · exact .none

/-- Variables that correspond give the same commands. -/
theorem commands?_eq {t t' : Store} (ht : t.Agrees R t') : b.commands? t = b'.commands? t' := by
  have hcommands : b.commands t = b'.commands t' := by
    refine map_eq_of_forall₂ h.actuators fun tie tie' htie => ?_
    unfold command
    rw [ht.value htie.target, htie.available, htie.name]
  unfold commands?
  rw [lead_eq h.actuators, points, h.pointCatalog, hcommands]

omit h in
/-- Commands depend on the published points only. -/
theorem performAll_eq (hpoints : b.pointCatalog = b'.pointCatalog) (cells : Cells)
    (cs : List Command) :
    (b.performAll cells cs).1.pointCatalog = (b'.performAll cells cs).1.pointCatalog
      ∧ (b.performAll cells cs).2 = (b'.performAll cells cs).2 := by
  unfold performAll
  induction cs generalizing b b' cells with
  | nil => exact ⟨hpoints, rfl⟩
  | cons c rest ih =>
    rw [performAllOn_cons, performAllOn_cons]
    have hfirst : (performOn writeCell (b, cells) c).1.pointCatalog
          = (performOn writeCell (b', cells) c).1.pointCatalog
        ∧ (performOn writeCell (b, cells) c).2 = (performOn writeCell (b', cells) c).2 := by
      unfold performOn setOverride
      cases c with
      | write available x =>
        dsimp only
        rw [points, points, hpoints]
        cases b'.pointCatalog.entries[available]? with
        | some p => exact ⟨rfl, rfl⟩
        | none => exact ⟨hpoints, rfl⟩
      | release available =>
        dsimp only
        rw [hpoints]
        exact ⟨rfl, rfl⟩
      | refuse actuator v => exact ⟨hpoints, rfl⟩
    rw [hfirst.2]
    exact ih hfirst.1 _

theorem performAll (cells : Cells) (cs : List Command) :
    (b.performAll cells cs).1.Alike R.rel (b'.performAll cells cs).1 := by
  have hsame := performAll_eq h.pointCatalog cells cs
  obtain ⟨pointCatalog, -, hleft⟩ := performAllOn_eq writeCell b cells cs
  obtain ⟨pointCatalog', -, hright⟩ := performAllOn_eq writeCell b' cells cs
  unfold Exchange.performAll at hsame ⊢
  rw [hleft, hright] at hsame ⊢
  exact { h with pointCatalog := hsame.1 }

end Exchange.Alike

/-! ## Programs -/

/-- Programs one after another do alike, if each of them does. -/
theorem Image.runAll_alike {R : Pairing} {img img' : Image}
    (hmain : ∀ id, (img.runMain id).Alike R (img'.runMain id))
    (hname : ∀ id, img.programName id = img'.programName id) (programs : List ProgramId)
    {m m' : Machine} (hm : m.Agrees R m') :
    ∃ outcomes stopped m₁ m₁', img.runAll m programs = (outcomes, stopped, m₁)
      ∧ img'.runAll m' programs = (outcomes, stopped, m₁') ∧ m₁.Agrees R m₁' := by
  induction programs generalizing m m' with
  | nil => exact ⟨_, _, _, _, rfl, rfl, hm⟩
  | cons id rest ih =>
    have hends := hmain id m m' hm
    unfold Image.runAll
    rw [hname id]
    generalize img.runMain id m = r at hends
    generalize img'.runMain id m' = r' at hends
    cases hends with
    | ok status hnext =>
      obtain ⟨outcomes, stopped, m₁, m₁', hleft, hright, hrest⟩ := ih hnext
      dsimp only
      rw [hleft, hright]
      exact ⟨_, _, _, _, rfl, rfl, hrest⟩
    | error interrupt hnext => exact ⟨_, _, _, _, rfl, rfl, hnext⟩

namespace Controller

/-! ## Runs -/

/-- Two controllers in the same state, as far as runs go: variables that correspond have the same
    values, and all else that a run reads is the same. -/
structure InStep (R : Pairing) (x y : Controller) : Prop where
  machine : x.machine.Agrees R y.machine
  settings : x.image.settings = y.image.settings
  routines : x.image.routines = y.image.routines
  curves : x.image.curves = y.image.curves
  trends : List.Forall₂ (Trend.Alike R.rel) x.image.trends.toList y.image.trends.toList
  programs : x.image.programs.map Program.uncompiled = y.image.programs.map Program.uncompiled
  exchange : x.exchange.Alike R.rel y.exchange
  cells : x.cells = y.cells
  schedule : x.schedule = y.schedule
  compiled : x.compiled = y.compiled
  terminated : x.terminated = y.terminated

namespace InStep

variable {R : Pairing} {x y : Controller} (h : InStep R x y)
include h

theorem program?_eq {α : Type} (f : Program → α) (id : ProgramId) :
    (x.image.programs[id]?).map (f ∘ Program.uncompiled)
      = (y.image.programs[id]?).map (f ∘ Program.uncompiled) := by
  have hid := congrArg (fun programs => programs[id]?) h.programs
  simp only [Array.getElem?_map] at hid
  rw [← Option.map_map, ← Option.map_map, hid]

theorem image : x.image.Alike y.image where
  settings := h.settings
  routines := h.routines
  curves := h.curves
  trends := h.trends.imp fun _ _ ht => ⟨ht.name, ht.history⟩
  programs := h.program?_eq Program.name
  subroutines name := by
    rw [← subroutineNamed?_uncompiled, h.programs, subroutineNamed?_uncompiled]

theorem programName_eq (id : ProgramId) : x.image.programName id = y.image.programName id :=
  congrArg (Option.getD · "") (h.program?_eq Program.name id)

theorem withMachine {m m' : Machine} (hm : m.Agrees R m') :
    InStep R { x with machine := m } { y with machine := m' } :=
  { h with machine := hm }

/-- The same is written to the host, and trends take the same samples. -/
theorem finishRun (commands : List Command) :
    InStep R (x.finishRun commands) (y.finishRun commands) := by
  have hsample : ∀ ⦃t t' : Trend⦄, Trend.Alike R.rel t t' →
      Trend.Alike R.rel (sampleTrend x.machine.store t) (sampleTrend y.machine.store t') := by
    intro t t' ht
    unfold sampleTrend
    rw [h.machine.store.value ht.source]
    cases y.machine.store.value t'.source with
    | number v => exact ⟨ht.name, congrArg (History.log · v) ht.history, ht.source⟩
    | _ => exact ht
  have hcells := (Exchange.Alike.performAll_eq h.exchange.pointCatalog x.cells commands).2
  have hexchange := h.exchange.performAll x.cells commands
  have htrends : List.Forall₂ (Trend.Alike R.rel)
      (x.image.trends.map (sampleTrend x.machine.store)).toList
      (y.image.trends.map (sampleTrend y.machine.store)).toList := by
    rw [Array.toList_map, Array.toList_map]
    exact List.rel_map hsample h.trends
  -- messages about refused commands go to the log, which is not compared
  unfold Controller.finishRun
  rw [← h.cells]
  exact { h with
    machine := ⟨h.machine.store, h.machine.generator⟩
    trends := htrends
    exchange := hexchange
    cells := hcells }

/-- A run ends in the same way for both, and leaves them in step. -/
theorem run (hmain : x.compiled = true → ∀ id, (x.image.runMain id).Alike R (y.image.runMain id))
    (point : CallingPoint) :
    (x.run point).1 = (y.run point).1 ∧ InStep R (x.run point).2 (y.run point).2 := by
  unfold Controller.run
  rw [← h.terminated, ← h.compiled, ← h.schedule]
  cases x.terminated with
  | true => exact ⟨rfl, h⟩
  | false =>
    cases hcompiled : x.compiled with
    | false => exact ⟨rfl, h⟩
    | true =>
      simp only [Bool.false_eq_true, if_false, Bool.not_true]
      split
      · exact ⟨rfl, h⟩
      · have hrefreshed := h.exchange.refresh? x.cells h.machine.store
        rw [← h.cells]
        generalize x.exchange.refresh? x.cells x.machine.store = s at hrefreshed
        generalize y.exchange.refresh? x.cells y.machine.store = s' at hrefreshed
        cases hrefreshed with
        | none => exact ⟨rfl, h⟩
        | @some t t' ht =>
          have hstart : Machine.Agrees R { x.machine with store := t }
              { y.machine with store := t' } := ⟨ht, h.machine.generator⟩
          obtain ⟨outcomes, stopped, m, m', hleft, hright, hm⟩ :=
            Image.runAll_alike (hmain hcompiled) h.programName_eq (x.schedule.programs point)
              hstart
          -- from here on both have the same outcomes and the same stop
          dsimp only
          unfold runPrograms
          rw [hleft, hright]
          cases stopped with
          | none =>
            dsimp only
            rw [h.exchange.commands?_eq hm.store]
            cases y.exchange.commands? m'.store with
            | some commands => exact ⟨rfl, (h.withMachine hm).finishRun commands⟩
            | none => exact ⟨rfl, h.withMachine hm⟩
          | some stop =>
            obtain ⟨program, interrupt⟩ := stop
            cases interrupt with
            | fatal message => exact ⟨rfl, { h.withMachine hm with terminated := rfl }⟩
            | breakdown => exact ⟨rfl, h.withMachine hm⟩
            | outOfSteps => exact ⟨rfl, h.withMachine hm⟩

end InStep

/-! ## Names during runs -/

section Names

variable (scope : Scope) (n : String)

theorem find?_of_becomes {img : Image} {m m' : Machine} (h : m.Becomes img m') :
    m'.store.find? scope n = m.store.find? scope n := by
  induction h with
  | refl => rfl
  | tail _ hchange ih =>
    rw [← ih]
    cases hchange with
    | draw generator => rfl
    | report program message _ => rfl
    | note line => rfl
    | assign v _ => exact Store.find?_adjust (Variable.keeps_value v) _ _ scope n

theorem find?_refresh (b : Exchange) (cells : Cells) (t : Store) :
    (b.refresh cells t).find? scope n = t.find? scope n := by
  have hties : ∀ (sources : Array SourcePoint) (ties : List Tie) (t : Store),
      (ties.foldl (Exchange.readTie cells sources) t).find? scope n = t.find? scope n := by
    intro sources ties
    induction ties with
    | nil => exact fun t => rfl
    | cons tie rest ih =>
      intro t
      rw [List.foldl_cons, ih, Exchange.readTie]
      split
      · exact Store.find?_adjust (Variable.keeps_value _) t tie.target scope n
      · rfl
  rw [Exchange.refresh, ← Array.foldl_toList, ← Array.foldl_toList, hties, hties]

/-- Runs do not change what names stand for. -/
theorem find?_run (c : Controller) (point : CallingPoint) :
    (c.run point).2.machine.store.find? scope n = c.machine.store.find? scope n := by
  rcases (c.run_runsTo point).store with ⟨hsame, -⟩ | ⟨store, m, hstarts, hbecomes, hstore⟩
  · rw [hsame]
  · rw [hstore, find?_of_becomes scope n hbecomes, Exchange.refresh?_eq_some hstarts.refreshed]
    exact find?_refresh scope n _ _ _

end Names

/-! ## Calling points one after another -/

/-- Runs calling points one after another. -/
def runEach (c : Controller) :
    List CallingPoint → List (Except RunError (List Outcome)) × Controller
  | [] => ([], c)
  | point :: rest =>
    ((c.run point).1 :: ((c.run point).2.runEach rest).1, ((c.run point).2.runEach rest).2)

theorem find?_runEach (scope : Scope) (n : String) (c : Controller) (points : List CallingPoint) :
    (c.runEach points).2.machine.store.find? scope n = c.machine.store.find? scope n := by
  induction points generalizing c with
  | nil => rfl
  | cons point rest ih =>
    rw [runEach, ih, find?_run]

/-- The programs of two controllers do alike, as long as their code stays and they are in step. -/
def CodeAlike (R : Pairing) (a b : Controller) : Prop :=
  ∀ x y, SameCode a x → SameCode b y → x.compiled = true → InStep R x y →
    ∀ id, (x.image.runMain id).Alike R (y.image.runMain id)

/-- Controllers whose programs do alike stay in step, and all their runs end in the same way. -/
theorem InStep.runEach {R : Pairing} {a b x y : Controller} (h : InStep R x y)
    (hcode : CodeAlike R a b) (hx : SameCode a x) (hy : SameCode b y)
    (points : List CallingPoint) :
    (x.runEach points).1 = (y.runEach points).1
      ∧ InStep R (x.runEach points).2 (y.runEach points).2 := by
  induction points generalizing x y with
  | nil => exact ⟨rfl, h⟩
  | cons point rest ih =>
    obtain ⟨hresult, hnext⟩ := h.run (fun hcompiled => hcode x y hx hy hcompiled h) point
    obtain ⟨hresults, hlast⟩ := ih hnext (hx.trans (x.run_runsTo point).sameCode)
      (hy.trans (y.run_runsTo point).sameCode)
    rw [Controller.runEach, Controller.runEach, hresult, hresults]
    exact ⟨rfl, hlast⟩

/-! ## Compiled controllers -/

/-- After compiling without a problem each source has a tree. -/
theorem exists_trees {c : Controller} (hc : c.compile.compiled = true) :
    ∃ trees : ProgramId → Block, ∀ (id : ProgramId) (p : Program),
      c.compile.image.programs[id]? = some p → (trees id).IsTreeOf p.source := by
  have htree : ∀ id : ProgramId, ∃ tree : Block, ∀ p : Program,
      c.compile.image.programs[id]? = some p → tree.IsTreeOf p.source := by
    intro id
    cases hp : c.compile.image.programs[id]? with
    | none => exact ⟨.done, fun p hp => by cases hp⟩
    | some p =>
      obtain ⟨source, hparse, -⟩ := c.compile_spec.2.2 id p hp (.inl hc)
      obtain ⟨tree, htree, -⟩ := parseCode_eq_ok_iff.1 hparse
      exact ⟨tree, fun q hq => Option.some.inj hq ▸ htree⟩
  choose trees htrees using htree
  exact ⟨trees, htrees⟩

/-- Programs of a controller that compiles run as the trees of their sources do. -/
theorem SameCode.runMain_eq {c x : Controller} (hx : SameCode c.compile x)
    (hc : c.compile.compiled = true) {trees : ProgramId → Block}
    (htrees : ∀ (id : ProgramId) (p : Program), c.compile.image.programs[id]? = some p →
      (trees id).IsTreeOf p.source) (id : ProgramId) :
    x.image.runMain id
      = x.image.interpret c.compile.names trees x.image.settings.limits.depth id := by
  refine Image.invoke_eq_interpret (fun id p hp => ?_) _ id
  rw [hx.programs] at hp
  rw [hx.nodes, hx.programs]
  exact ⟨c.compile_spec.2.2 id p hp (.inl hc), htrees id p hp⟩

section Compiled

variable {a b : Controller} (h : Alike a b) (huntaken : ∀ program, a.Untaken program)
include h huntaken

theorem Alike.compiled_eq : a.compile.compiled = b.compile.compiled := by
  have hproblems := h.problems_compile_eq huntaken
  show (a.compile.problems).isEmpty = (b.compile.problems).isEmpty
  rw [hproblems]

theorem Alike.codeAlike :
    CodeAlike (Store.pairing a.compile.machine.store b.compile.machine.store)
      a.compile b.compile := by
  intro x y hx hy hcompiled hstep id
  have hleft : a.compile.compiled = true := hx.compiled.symm.trans hcompiled
  have hright : b.compile.compiled = true := (h.compiled_eq huntaken).symm.trans hleft
  obtain ⟨trees, htrees⟩ := exists_trees hleft
  -- the sources are the same, so one tree serves for both
  have htrees' : ∀ (id : ProgramId) (q : Program), b.compile.image.programs[id]? = some q →
      (trees id).IsTreeOf q.source := by
    intro id q hq
    obtain ⟨p, hp, heq⟩ := program_pair h.right.compile h.compile hq
    have hsource : q.uncompiled.source = p.uncompiled.source := by rw [heq]
    change q.source = p.source at hsource
    rw [hsource]
    exact htrees id p hp
  have hnames : ∀ id, (a.compile.names id).Alike
      (Store.pairing a.compile.machine.store b.compile.machine.store) (b.compile.names id) :=
    fun id => (compile_settled h.explained (huntaken id)).names_alike h.compile h.right.compile
      (h.settled_right id)
  rw [hx.runMain_eq hleft htrees, hy.runMain_eq hright htrees', hstep.settings]
  exact Image.interpret_alike hstep.image hnames trees _ id

/-- After compiling two controllers with the same declarations are in step. -/
theorem Alike.inStep :
    InStep (Store.pairing a.compile.machine.store b.compile.machine.store)
      a.compile b.compile := by
  have hx := h.compile
  have hy := h.right.compile
  -- globals that correspond to the same one correspond to each other
  have hpair : ∀ {i j k : VariableId}, SameGlobal a.compile b i k → SameGlobal b.compile b j k →
      (Store.pairing a.compile.machine.store b.compile.machine.store).rel i j := by
    rintro i j k ⟨n, hi, hk⟩ ⟨n', hj, hk'⟩
    have hname := (Store.find?_unique hk hk').2
    refine ⟨.global, n, hi, ?_⟩
    rw [Store.find?_congr _ _ hname]
    exact hj
  have htie : ∀ t u s : Tie, Tie.Alike (SameGlobal a.compile b) t u →
      Tie.Alike (SameGlobal b.compile b) s u → Tie.Alike
        (Store.pairing a.compile.machine.store b.compile.machine.store).rel t s :=
    fun t u s ht hs => ⟨ht.name.trans hs.name.symm, ht.available.trans hs.available.symm,
      hpair ht.target hs.target⟩
  exact {
    machine := agrees_of_alike hx hy
    settings := h.settings
    routines := h.routines
    curves := h.curves
    trends := forall₂_join hx.trends hy.trends fun t u s ht hs =>
      ⟨ht.name.trans hs.name.symm, ht.history.trans hs.history.symm, hpair ht.source hs.source⟩
    programs := hx.programs.trans hy.programs.symm
    exchange := ⟨h.exchange.pointCatalog, h.exchange.outputCatalog, h.exchange.internalCatalog,
      forall₂_join hx.exchange.actuators hy.exchange.actuators htie,
      forall₂_join hx.exchange.sensors hy.exchange.sensors htie,
      forall₂_join hx.exchange.internalVariables hy.exchange.internalVariables htie⟩
    cells := h.cells
    schedule := h.schedule
    compiled := h.compiled_eq huntaken
    terminated := h.terminated }

omit huntaken in
/-- The host reads the same values after the same runs. -/
theorem Alike.readGlobal_eq {x y : Controller}
    (hstep : InStep (Store.pairing a.compile.machine.store b.compile.machine.store) x y)
    (hx : ∀ n, x.machine.store.global? n = a.compile.machine.store.global? n)
    (hy : ∀ n, y.machine.store.global? n = b.compile.machine.store.global? n) (n : String) :
    x.readGlobal n = y.readGlobal n := by
  unfold readGlobal
  rw [hx, hy]
  cases hi : a.compile.machine.store.global? n with
  | some i =>
    obtain ⟨j, hj, -⟩ := global_pair h.compile h.right.compile hi
    rw [hj]
    exact congrArg Except.ok (hstep.machine.store.value ⟨.global, n, hi, hj⟩)
  | none => rw [(global?_eq_none_iff h.compile h.right.compile n).1 hi]

end Compiled

end Controller

end Erl
