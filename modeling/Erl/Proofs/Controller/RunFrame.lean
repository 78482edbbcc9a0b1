/-
  Erl.Proofs.Controller.RunFrame

  What a run leaves alone.

  A run reads the ties and lets the programs of the calling point run.  These assign only what they
  or the subroutines in their reach name after `SET`, and such a name stands for a local of the
  program that it is in, or for the global of that name.  So a run changes the values of tied
  variables, of globals that are named so and of locals of the programs in reach; it changes no
  other value, and nothing but values.
-/

import Erl.Proofs.Controller.Links
import Erl.Proofs.Machine.Footprint

namespace Erl

/-- A trace keeps the messages. -/
theorem Log.records_recordLine (log : Log) (line : ExecutedLine) :
    (log.recordLine line).records = log.records := by
  unfold Log.recordLine
  split
  · rfl
  · split <;> rfl

/-- As many variables have origins as there are variables. -/
theorem Store.size_eq_of_origin?_eq {t t' : Store} (h : ∀ id, t'.origin? id = t.origin? id) :
    t'.size = t.size :=
  Nat.le_antisymm (Keeps.of_origin?_eq fun id => (h id).symm).size_le
    (Keeps.of_origin?_eq h).size_le

/-! ## Computations -/

/-- The machine of an end, with a value or with an interrupt, has a property. -/
def Exec.EndsIn {α : Type} (P : Machine → Prop) : EStateM.Result Interrupt Machine α → Prop
  | .ok _ m => P m
  | .error _ m => P m

/-- A computation that keeps a property of the machine, however it ends. -/
def Exec.Keeps {α : Type} (P : Machine → Prop) (x : Exec α) : Prop :=
  ∀ m, P m → Exec.EndsIn P (x m)

namespace Exec.Keeps

variable {α β : Type} {P : Machine → Prop}

theorem pure (a : α) : Keeps P (Pure.pure a : Exec α) :=
  fun _ hm => hm

theorem throw (e : Interrupt) : Keeps P (throw e : Exec α) :=
  fun _ hm => hm

theorem bind {x : Exec α} {f : α → Exec β} (hx : Keeps P x) (hf : ∀ a, Keeps P (f a)) :
    Keeps P (x >>= f) := by
  intro m hm
  have hends := hx m hm
  cases hxm : x m with
  | ok a m₁ =>
    rw [hxm] at hends
    rw [Exec.bind_ok hxm]
    exact hf a m₁ hends
  | error e m₁ =>
    rw [hxm] at hends
    rw [Exec.bind_error hxm]
    exact hends

theorem modify {f : Machine → Machine} (hf : ∀ m, P m → P (f m)) :
    Keeps P (modify f : Exec PUnit) :=
  hf

/-- What a computation does with the machine that it starts from. -/
theorem getBind {f : Machine → Exec β} (hf : ∀ m, P m → Exec.EndsIn P (f m m)) :
    Keeps P (MonadState.get >>= f) :=
  hf

end Exec.Keeps

/-- A property of the machine that random numbers, messages and assignments to some variables do
    not change. -/
structure Machine.Lasting (writes : VariableId → Prop) (P : Machine → Prop) : Prop where
  draw : ∀ (m : Machine) (generator : Generator), P m → P { m with generator }
  note : ∀ (m : Machine) (log : Log), m.log.records.toList <+: log.records.toList → P m →
    P { m with log }
  assign : ∀ (m : Machine) (target : VariableId) (v : Value), writes target → P m →
    P { m with store := m.store.set target v }

section Computations

variable {P : Machine → Prop} {writes : VariableId → Prop} (h : Machine.Lasting writes P)
  {img : Image}
include h

theorem record_keeps (severity : Severity) (program message : String) :
    (Exec.record severity program message).Keeps P := by
  refine .modify fun m hm => h.note m _ ?_ hm
  rw [Log.record, Array.toList_push]
  exact List.prefix_append _ _

theorem callRoutine_keeps (f : Builtin) (args : List Value) :
    (callRoutine img f args).Keeps P := by
  unfold callRoutine
  split
  · exact .pure _
  · next xs _ =>
    refine .getBind fun m hm => ?_
    generalize img.routines f xs m.generator = r
    obtain ⟨reply, generator⟩ := r
    have hdrawn := h.draw m generator hm
    cases reply with
    | value x => exact hdrawn
    | refused e => exact hdrawn
    | breakdown => exact hdrawn

theorem callMessage_keeps (program : String) (f : MessageFunction) (args : List Value) :
    (callMessage program f args).Keeps P := by
  unfold callMessage
  cases f with
  | fatalHalt => exact .bind (record_keeps h _ _ _) fun _ => .throw _
  | severe => exact .bind (record_keeps h _ _ _) fun _ => .pure _
  | warning => exact .bind (record_keeps h _ _ _) fun _ => .pure _

/-- Code keeps what its assignments keep. -/
theorem Footprint.law_keeps {s : Footprint} (hwrites : ∀ v, s.writes v → writes v) (img : Image) :
    s.Law img fun _ x => x.Keeps P where
  pure := .pure
  bind := .bind
  value := fun _ => .getBind fun _ hm => hm
  call := fun program f args _ => by
    cases f with
    | math f => exact callRoutine_keeps h _ _
    | air f => exact callRoutine_keeps h _ _
    | message f => exact callMessage_keeps h _ _ _
    | trend f => exact .pure _
    | curveValue => exact .pure _
  report := fun program message _ => record_keeps h _ program message
  note := fun line => .modify fun m hm => by
    refine h.note m _ ?_ hm
    rw [Log.records_recordLine]
  assign := fun {target} v htarget => .modify fun m hm => h.assign m target v (hwrites _ htarget) hm
  cutOff := .throw _

/-- A program keeps what its assignments and those of the subroutines in its reach keep. -/
theorem Image.invoke_keeps {id : ProgramId} (hwrites : ∀ v, (img.footprint id).writes v → writes v)
    (depth : Nat) : (img.invoke depth id).Keeps P :=
  (Footprint.law_keeps h hwrites img).invoke depth

/-- Programs keep what their assignments keep, however they end. -/
theorem Image.runAll_keeps {programs : List ProgramId}
    (hwrites : ∀ id ∈ programs, ∀ v, (img.footprint id).writes v → writes v) {m : Machine}
    (hm : P m) : P (img.runAll m programs).2.2 := by
  induction programs generalizing m with
  | nil => exact hm
  | cons id rest ih =>
    -- the machine of a program that is interrupted is kept as well
    have hfirst := Image.invoke_keeps h (hwrites id List.mem_cons_self)
      img.settings.limits.depth m hm
    have hrest := fun id' hid' => hwrites id' (List.mem_cons_of_mem id hid')
    rw [Image.runAll]
    cases hmain : img.runMain id m with
    | ok status m₁ =>
      rw [show img.invoke img.settings.limits.depth id m = .ok status m₁ from hmain] at hfirst
      exact ih hrest hfirst
    | error e m₁ =>
      rw [show img.invoke img.settings.limits.depth id m = .error e m₁ from hmain] at hfirst
      exact hfirst

end Computations

/-! ## Sources -/

/-- An instruction stands in the source of a program. -/
def Program.States (p : Program) (instruction : Instruction String Expr String) : Prop :=
  ∃ lines, parseCode p.source = .ok lines ∧ ∃ line ∈ lines, line.instruction = instruction

/-- The source of a program runs a subroutine, which it names in any letter case. -/
def Image.Names (img : Image) (caller callee : ProgramId) : Prop :=
  ∃ p q name, img.programs[caller]? = some p ∧ img.programs[callee]? = some q
    ∧ p.States (.run name) ∧ q.kind = .subroutine ∧ Text.sameName q.name name = true

/-- What a line does stands in the source. -/
theorem Program.IsCompiled.realizes {names : Naming} {nodes : Array Node}
    {programs : Array Program} {p : Program} (h : p.IsCompiled names nodes programs)
    {line : ReadyLine} (hline : line ∈ p.lines) :
    ∃ instruction, p.States instruction
      ∧ Realizes names nodes programs instruction line.instruction := by
  obtain ⟨source, hparse, hlines⟩ := h
  obtain ⟨i, hi⟩ := List.getElem?_of_mem (Array.mem_toList_iff.2 hline)
  obtain ⟨sourceLine, hsource, hrealizes⟩ := getElem?_of_forall₂ hlines.flip hi
  have hmem : sourceLine ∈ source := Array.mem_toList_iff.1 (List.mem_of_getElem? hsource)
  exact ⟨_, ⟨source, hparse, sourceLine, hmem, rfl⟩, hrealizes.instruction⟩

/-- The subroutine with a name has the name, in some letter case. -/
theorem exists_of_subroutineNamed? {programs : Array Program} {name : String} {id : ProgramId}
    (h : subroutineNamed? programs name = some id) :
    ∃ q, programs[id]? = some q ∧ q.kind = .subroutine ∧ Text.sameName q.name name = true := by
  obtain ⟨hfound, hkind⟩ := Option.filter_eq_some_iff.1 h
  obtain ⟨hlt, hname, -⟩ := Array.findIdx?_eq_some_iff_getElem.1 hfound
  have hq : programs[id]? = some programs[id] := Array.getElem?_eq_getElem hlt
  rw [hq] at hkind
  exact ⟨_, hq, by simpa using hkind, hname⟩

namespace Controller

variable {c c' : Controller} {point : CallingPoint}

/-- A program is bound to a calling point, or in the reach of one that is. -/
def InReach (c : Controller) (point : CallingPoint) (id : ProgramId) : Prop :=
  ∃ main ∈ c.schedule.programs point, Relation.ReflTransGen c.image.Names main id

/-- The variables that a run may change the value of. -/
inductive MayChange (c : Controller) (point : CallingPoint) (id : VariableId) (x : Variable) :
    Prop where
  | sensor {tie : Tie} : tie ∈ c.exchange.sensors → tie.target = id → MayChange c point id x
  | internalVariable {tie : Tie} : tie ∈ c.exchange.internalVariables → tie.target = id →
      MayChange c point id x
  /-- A global that is named after `SET` in a program in reach. -/
  | global {program : ProgramId} {p : Program} {name : String} {value : Expr} :
      x.scope = .global → c.InReach point program → c.image.programs[program]? = some p →
      p.States (.set name value) → Text.sameName x.name name = true → MayChange c point id x
  /-- A local of a program in reach. -/
  | local_ {program : ProgramId} :
      x.scope = .local_ program → c.InReach point program → MayChange c point id x

namespace Reachable

/-- In a controller that may run, the subroutines that lines run are those that sources name. -/
theorem names_of_calls (h : Reachable c) (hcompiled : c.compiled = true)
    {caller callee : ProgramId} (hcalls : c.image.Calls caller callee) :
    c.image.Names caller callee := by
  obtain ⟨p, line, hp, hline, hi⟩ := hcalls
  obtain ⟨c₀, -, -, hcode⟩ := h.compiled_at hcompiled
  obtain ⟨instruction, hstates, hrealizes⟩ := (hcode.isCompiled hcompiled hp).realizes hline
  rw [hi] at hrealizes
  cases hrealizes with
  | run hname =>
    obtain ⟨q, hq, hkind, hsame⟩ := exists_of_subroutineNamed? hname
    exact ⟨p, q, _, hp, hq, hstates, hkind, hsame⟩

/-- A line assigns a local of its program, or the global that its source names. -/
theorem scope_of_set (h : Reachable c) (hcompiled : c.compiled = true) {id : ProgramId}
    {p : Program} (hp : c.image.programs[id]? = some p) {line : ReadyLine} (hline : line ∈ p.lines)
    {v : VariableId} {e : NodeId} (hi : line.instruction = .set v e) {x : Variable}
    (hx : c.machine.store.get? v = some x) :
    x.scope = .local_ id ∨ x.scope = .global
      ∧ ∃ name value, p.States (.set name value) ∧ Text.sameName x.name name = true := by
  obtain ⟨c₀, -, hlater, hcode⟩ := h.compiled_at hcompiled
  obtain ⟨instruction, hstates, hrealizes⟩ := (hcode.isCompiled hcompiled hp).realizes hline
  rw [hi] at hrealizes
  cases hrealizes with
  | @set name value _ _ htarget _ =>
    -- what the name stood for when the source was compiled still has its scope and its name
    have hfound : ∀ scope, c₀.compile.machine.store.find? scope name = some v →
        x.scope = scope ∧ Text.sameName x.name name = true := by
      intro scope hfind
      obtain ⟨x', hx', hscope, hname⟩ := Store.get?_of_find? (hlater.lasts.find? hfind)
      cases hx.symm.trans hx'
      exact ⟨hscope, hname⟩
    rw [Naming.resolve?_eq] at htarget
    split at htarget
    · next v' hlookup =>
      cases htarget
      rcases Option.or_eq_some_iff.1 hlookup with hlocal | ⟨-, hglobal⟩
      · exact .inl (hfound _ hlocal).1
      · obtain ⟨hscope, hname⟩ := hfound _ hglobal
        exact .inr ⟨hscope, name, value, hstates, hname⟩
    · obtain ⟨t, -, ht⟩ := Option.map_eq_some_iff.1 htarget
      cases ht

/-- What the programs of a calling point assign is what a run may change. -/
theorem mayChange_of_writes (h : Reachable c) (hcompiled : c.compiled = true) {main : ProgramId}
    (hmain : main ∈ c.schedule.programs point) {v : VariableId}
    (hwrites : (c.image.footprint main).writes v) {x : Variable}
    (hx : c.machine.store.get? v = some x) : c.MayChange point v x := by
  obtain ⟨line, e, ⟨id, p, hcalls, hp, hline⟩, hi⟩ := hwrites
  have hnames : c.image.Calls ≤ c.image.Names := fun _ _ hcall => h.names_of_calls hcompiled hcall
  have hreach : c.InReach point id :=
    ⟨main, hmain, Relation.ReflTransGen.mono hnames _ _ hcalls⟩
  rcases h.scope_of_set hcompiled hp hline hi hx with
    hlocal | ⟨hglobal, name, value, hstates, hname⟩
  · exact .local_ hlocal hreach
  · exact .global hglobal hreach hp hstates hname

end Reachable

/-! ## Runs -/

/-- A machine on which variables that a run may not change are as they were before it, and all
    messages that were there before it still are. -/
structure Spared (c : Controller) (point : CallingPoint) (m : Machine) : Prop where
  store : ∀ (id : VariableId) (x : Variable), c.machine.store.get? id = some x →
    ¬ c.MayChange point id x → m.store.get? id = some x
  messages : c.machine.log.records.toList <+: m.log.records.toList

theorem spared_lasting (c : Controller) (point : CallingPoint) :
    Machine.Lasting (fun v => ∀ x, c.machine.store.get? v = some x → c.MayChange point v x)
      (c.Spared point) where
  draw := fun _ _ hm => ⟨hm.store, hm.messages⟩
  note := fun _ _ hlog hm => ⟨hm.store, hm.messages.trans hlog⟩
  assign := fun m target v htarget hm => by
    refine ⟨fun id x hx hnot => ?_, hm.messages⟩
    have hne : target ≠ id := by
      rintro rfl
      exact hnot (htarget x hx)
    exact (m.store.get?_set_of_ne hne v).trans (hm.store id x hx hnot)

/-- Refused commands are reported after the messages of the programs. -/
theorem reportRefused_records (log : Log) (commands : List Command) :
    log.records.toList <+: (reportRefused log commands).records.toList := by
  unfold reportRefused
  induction commands generalizing log with
  | nil => exact List.prefix_rfl
  | cons command rest ih =>
    rw [List.foldl_cons]
    refine List.IsPrefix.trans ?_ (ih _)
    cases command with
    | refuse actuator v => exact prefix_push _ _
    | write available x => exact List.prefix_rfl
    | release available => exact List.prefix_rfl

/-- What the programs leave of the machine is left, and only messages are added. -/
theorem runPrograms_machine (c : Controller) (store : Store) (programs : List ProgramId) :
    ∃ log, (c.image.runAll { c.machine with store } programs).2.2.log.records.toList
        <+: log.records.toList
      ∧ (c.runPrograms store programs).2.machine
        = { (c.image.runAll { c.machine with store } programs).2.2 with log } := by
  unfold runPrograms
  generalize c.image.runAll { c.machine with store } programs = r
  obtain ⟨outcomes, stopped, m⟩ := r
  rcases stopped with _ | ⟨name, interrupt⟩
  · dsimp only
    split
    · next commands _ =>
      unfold finishRun
      dsimp only
      split
      · exact ⟨_, reportRefused_records _ _, rfl⟩
      · exact ⟨_, List.prefix_rfl, rfl⟩
    · exact ⟨_, List.prefix_rfl, rfl⟩
  · cases interrupt <;> exact ⟨_, List.prefix_rfl, rfl⟩

/-- A run spares what it may not change. -/
theorem Reachable.run_spares (h : Reachable c) (point : CallingPoint) :
    c.Spared point (c.run point).2.machine := by
  rcases (c.run_runsTo point).store with ⟨hsame, -⟩ | ⟨store, -, hstarts, -⟩
  · rw [hsame]
    exact ⟨fun _ _ hx _ => hx, List.prefix_rfl⟩
  · have hlasting := c.spared_lasting point
    -- reading the ties changes tied variables only
    have hrefreshed : c.Spared point { c.machine with store } := by
      refine ⟨fun id x hx hnot => ?_, List.prefix_rfl⟩
      show store.get? id = some x
      rw [Exchange.refresh?_eq_some hstarts.refreshed, Exchange.refresh_get?, hx]
      · exact fun tie htie heq => hnot (.sensor htie heq)
      · exact fun tie htie heq => hnot (.internalVariable htie heq)
    -- programs assign only what sources name, and that is what may change
    have hprograms := Image.runAll_keeps hlasting (fun main hmain v hwrites x hx =>
      h.mayChange_of_writes hstarts.compiled hmain hwrites hx) hrefreshed
    obtain ⟨log, hlog, hmachine⟩ :=
      c.runPrograms_machine store (c.schedule.programs point)
    rw [hstarts.run_eq, hmachine]
    exact hlasting.note _ log hlog hprograms

/-- A run does not touch the code, what programs are bound to, constructions or problems. -/
theorem RunsTo.tables {r : Except RunError (List Outcome)} (h : RunsTo c point r c') :
    c'.image.nodes = c.image.nodes ∧ c'.image.programs = c.image.programs
      ∧ c'.schedule = c.schedule ∧ c'.constructions = c.constructions
      ∧ c'.problems = c.problems := by
  cases h <;> exact ⟨rfl, rfl, rfl, rfl, rfl⟩

/-- A run adds no variable and takes none back. -/
theorem RunsTo.size {r : Except RunError (List Outcome)} (h : RunsTo c point r c') :
    c'.machine.store.size = c.machine.store.size :=
  Store.size_eq_of_origin?_eq h.origin?

/-- The frame of a run.

    A run changes the value of no variable but those that are tied to a sensor or an internal
    variable of the host, globals that are named after `SET` in a bound program or a subroutine in
    the reach of one, and locals of those programs; in particular no local of another program.
    No variable changes in anything but its value, and none is added.  The nodes, the programs, what
    is bound, the constructions and the problems stay as they are, and what is published and tied
    does up to the flags of controlled points that the host respects.  Messages are only added. -/
theorem Reachable.run_frame (h : Reachable c) (point : CallingPoint) :
    (∀ (id : VariableId) (x : Variable), c.machine.store.get? id = some x →
        ∃ v, (c.run point).2.machine.store.get? id = some { x with value := v }
          ∧ (¬ c.MayChange point id x → v = x.value))
      ∧ (∀ (id : VariableId) (x : Variable) (program : ProgramId),
          c.machine.store.get? id = some x → x.scope = .local_ program →
          ¬ c.InReach point program → (c.run point).2.machine.store.get? id = some x)
      ∧ (c.run point).2.machine.store.size = c.machine.store.size
      ∧ (c.run point).2.image.nodes = c.image.nodes
      ∧ (c.run point).2.image.programs = c.image.programs
      ∧ (c.run point).2.schedule = c.schedule
      ∧ (c.run point).2.constructions = c.constructions
      ∧ (c.run point).2.problems = c.problems
      ∧ (∃ pointCatalog : Catalog ControlPoint.foldedKey,
          (c.run point).2.exchange = { c.exchange with pointCatalog }
            ∧ pointCatalog.entries.map ControlPoint.released
              = c.exchange.points.map ControlPoint.released)
      ∧ c.machine.log.records.toList <+: (c.run point).2.machine.log.records.toList := by
  have hspared := h.run_spares point
  have hto := c.run_runsTo point
  obtain ⟨hnodes, hprograms, hschedule, hconstructions, hproblems⟩ := hto.tables
  refine ⟨?_, ?_, hto.size, hnodes, hprograms, hschedule, hconstructions, hproblems, ?_,
    hspared.messages⟩
  · intro id x hx
    by_cases hmay : c.MayChange point id x
    · obtain ⟨v, hv⟩ := hto.lasts id x hx
      exact ⟨v, hv, fun hnot => absurd hmay hnot⟩
    · exact ⟨x.value, hspared.store id x hx hmay, fun _ => rfl⟩
  · intro id x program hx hscope hreach
    refine hspared.store id x hx ?_
    -- ties lead to globals, so a local changes only where its program may assign it
    have htied : ∀ ties, c.machine.store.HasTargets ties → ∀ tie ∈ ties, tie.target ≠ id := by
      rintro ties htargets tie htie rfl
      obtain ⟨x', hx', hglobal⟩ := htargets tie htie
      cases hx.symm.trans hx'
      rw [hscope] at hglobal
      cases hglobal
    rintro (⟨htie, heq⟩ | ⟨htie, heq⟩ | ⟨hglobal, -⟩ | ⟨hlocal, hin⟩)
    · exact htied _ h.linked.sensors _ htie heq
    · exact htied _ h.linked.internalVariables _ htie heq
    · rw [hscope] at hglobal
      cases hglobal
    · rw [hscope] at hlocal
      cases hlocal
      exact hreach hin
  · obtain ⟨pointCatalog, -, hexchange⟩ := hto.exchange
    refine ⟨pointCatalog, hexchange, ?_⟩
    have hreleased := hto.released
    rw [hexchange] at hreleased
    exact hreleased

/-- A controller with a program whose subroutine assigns a global and a local, after a run of
    another program with a local of the same name. -/
def partlyRun : Controller :=
  let c := ((Controller.ofSettings .default .zero).addGlobal "g" .user).2
  let c := (c.addProgram "main" "RUN sub").2
  let c := (c.addSubroutine "sub" "SET g = ON\nSET a = OFF").2
  let c := (c.addProgram "other" "SET a = ON").2
  let c := (c.bindProgram .beginNewEnvironment "main").2
  let c := (c.bindProgram .beginTimestepBeforePredictor "other").2
  (c.compile.run .beginTimestepBeforePredictor).2

theorem Reachable.run_frame_partlyRun : Reachable partlyRun
    ∧ ¬ partlyRun.InReach .beginNewEnvironment 2
    ∧ ∃ id x, partlyRun.machine.store.find? (.local_ 2) "a" = some id
      ∧ partlyRun.machine.store.get? id = some x ∧ x.value = .number 1
      ∧ (partlyRun.run .beginNewEnvironment).2.machine.store.get? id = some x := by
  have hreach : Reachable partlyRun :=
    ((((((((Reachable.ofSettings .default .zero).does (.addGlobal _ _)).does (.addProgram _ _)).does
      (.addSubroutine _ _)).does (.addProgram _ _)).does (.bindProgram _ _)).does
      (.bindProgram _ _)).does .compile).does (.run _)
  obtain ⟨hbound, hkind, hvalue⟩ :
      partlyRun.schedule.programs .beginNewEnvironment = [0]
      ∧ (partlyRun.image.programs[2]?).map Program.kind = some .main
      ∧ (partlyRun.machine.store.named? (.local_ 2) "a").map Variable.value = some (.number 1) := by
    decide +kernel
  have hout : ¬ partlyRun.InReach .beginNewEnvironment 2 := by
    rintro ⟨main, hmain, hnames⟩
    rw [hbound, List.mem_singleton] at hmain
    subst hmain
    cases hnames with
    | tail _ hlast =>
      -- it is not a subroutine
      obtain ⟨p, q, name, -, hq, -, hsub, -⟩ := hlast
      rw [hq] at hkind
      cases (Option.some.inj hkind).symm.trans hsub
  obtain ⟨x, hx, hone⟩ := Option.map_eq_some_iff.1 hvalue
  obtain ⟨id, hid, hget⟩ := Option.bind_eq_some_iff.1 hx
  obtain ⟨x', hx', hscope, -⟩ := Store.get?_of_find? hid
  cases hget.symm.trans hx'
  exact ⟨hreach, hout, id, x, hid, hget, hone,
    (hreach.run_frame .beginNewEnvironment).2.1 id x 2 hget hscope hout⟩

end Controller

end Erl
