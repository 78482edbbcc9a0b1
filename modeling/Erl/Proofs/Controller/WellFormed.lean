/-
  Erl.Proofs.Controller.WellFormed

  The tables of every controller that a host can make are well formed.

  Nodes, lines and bindings refer to each other by position.  Positions of variables and trends
  are never taken back, those of nodes are taken back all at once when programs are compiled,
  and a program that is added takes the permission to run back.  So at any time every position
  that is written down somewhere is the position of something of the right kind, and evaluation
  never has to answer for a missing one.
-/

import Erl.Proofs.Code.Matching
import Erl.Proofs.Controller.InRange
import Erl.Proofs.Controller.Reachable
import Erl.Proofs.Exchange
import Erl.Proofs.Index

namespace Erl

/-! ## Targets -/

/-- The lines that an instruction leads to. -/
def Instruction.targets {τ ε σ : Type} : Instruction τ ε σ → List Nat
  | if_ _ next => [next]
  | elseIf _ next stop => [next, stop]
  | else_ stop => [stop]
  | while_ _ stop => [stop]
  | endWhile start => [start]
  | _ => []

theorem NextArm.lt_length {ks : List Keyword} {i j : Nat} (h : NextArm ks i j) :
    j < ks.length := by
  obtain ⟨before, opener, body, arm, after, rfl, -, -, rfl, rfl⟩ := h
  simp
  omega

theorem LastArm.lt_length {ks : List Keyword} {i j : Nat} (h : LastArm ks i j) :
    j < ks.length := by
  obtain ⟨before, arms, after, rfl, -, rfl, hj⟩ := h
  simp
  omega

theorem LoopEnd.lt_length {ks : List Keyword} {i j : Nat} (h : LoopEnd ks i j) :
    i < j ∧ j < ks.length := by
  obtain ⟨before, body, after, rfl, -, rfl, rfl⟩ := h
  simp
  omega

/-- Partners are lines of the same program. -/
theorem Partners.targets_lt {ks : List Keyword} {i : Nat}
    {instruction : Instruction String Expr String} (h : Partners ks i instruction) :
    ∀ t ∈ instruction.targets, t < ks.length := by
  cases instruction with
  | if_ c next => simpa [Instruction.targets] using NextArm.lt_length h
  | elseIf c next stop =>
    simpa [Instruction.targets] using And.intro h.1.lt_length h.2.lt_length
  | else_ stop => simpa [Instruction.targets] using LastArm.lt_length h
  | while_ c stop => simpa [Instruction.targets] using (LoopEnd.lt_length h).2
  | endWhile start =>
    obtain ⟨hlt, hlength⟩ := LoopEnd.lt_length h
    simpa [Instruction.targets] using Nat.lt_trans hlt hlength
  | set target value => simp [Instruction.targets]
  | run subroutine => simp [Instruction.targets]
  | return_ => simp [Instruction.targets]
  | endIf => simp [Instruction.targets]

/-- Compiling keeps the lines that an instruction leads to. -/
theorem Realizes.targets_eq {names : Naming} {nodes : Array Node} {programs : Array Program}
    {i : Instruction String Expr String} {r : Instruction VariableId NodeId ProgramId}
    (h : Realizes names nodes programs i r) : r.targets = i.targets := by
  cases h <;> rfl

/-- A compiled program does not lead out of itself. -/
theorem Program.IsCompiled.targets_lt {names : Naming} {nodes : Array Node}
    {programs : Array Program} {p : Program} (h : p.IsCompiled names nodes programs) :
    ∀ line ∈ p.lines, ∀ t ∈ line.instruction.targets, t < p.lines.size := by
  obtain ⟨source, hparse, hlines⟩ := h
  obtain ⟨b, -, rfl⟩ := parseCode_eq_ok_iff.1 hparse
  have hlength : b.keywords.length = p.lines.size := by
    rw [Block.length_keywords, ← b.length_code 0]
    simpa using hlines.length_eq
  intro line hline t ht
  obtain ⟨i, hi⟩ := List.getElem?_of_mem (Array.mem_toList_iff.2 hline)
  obtain ⟨sourceLine, hsource, hrealizes⟩ := getElem?_of_forall₂ hlines.flip hi
  rw [hrealizes.instruction.targets_eq] at ht
  rw [← hlength]
  exact (b.partners hsource).targets_lt t ht

/-! ## Origins -/

namespace Controller

variable {c c' : Controller}

/-- A run keeps the origins of all variables. -/
theorem RunsTo.origin? {point : CallingPoint} {r : Except RunError (List Outcome)}
    (h : RunsTo c point r c') (id : VariableId) :
    c'.machine.store.origin? id = c.machine.store.origin? id := by
  rcases h.store with ⟨rfl, -⟩ | ⟨store, m, hstarts, hbecomes, heq⟩
  · rfl
  · rw [heq, hbecomes.origin? id, Exchange.refresh?_eq_some hstarts.refreshed]
    exact c.exchange.refresh_origin? _ _ id

/-- Whatever a host does, variables keep their origins. -/
theorem Does.keeps (h : Does c c') : c.machine.store.Keeps c'.machine.store := by
  obtain ⟨_, heffect⟩ := h.effect
  cases heffect with
  | addVariable _ _ _ => exact (Store.Grows.add _ _).keeps
  | assign v _ => exact .of_origin?_eq fun id => Store.origin?_set _ _ id v
  | updateClock clock =>
    exact .of_origin?_eq fun id =>
      Store.origin?_foldl_set _ (fun t a id => Store.origin?_set t _ id _) _ _ id
  | compile => exact c.compile_le.1.keeps
  | run point => exact .of_origin?_eq (c.run_runsTo point).origin?
  | host routines curves cells constructions => exact .refl _
  | publish _ => exact .refl _
  | refuse problem => exact .refl _
  | addTrend _ => exact .refl _
  | addProgram _ _ => exact .refl _
  | bind point _ => exact .refl _

/-! ## Well-formed tables -/

/-- All that nodes, lines and bindings refer to exists and is of the right kind. -/
structure WellFormed (c : Controller) : Prop where
  nodes : NodesInRange c.machine.store.size c.image.trends.size c.image.nodes
  lines : ∀ p ∈ c.image.programs, ∀ line ∈ p.lines,
    line.instruction.Refers c.machine.store c.image.nodes.size c.image.programs
      ∧ ∀ t ∈ line.instruction.targets, t < p.lines.size
  bound : ∀ point, ∀ id ∈ c.schedule.programs point,
    (c.image.programs[id]?).map Program.kind = some .main

/-- Tables stay well formed when variables and trends are added. -/
theorem WellFormed.congr (h : c.WellFormed) (hcode : SameCode c c')
    (hstore : c.machine.store.Keeps c'.machine.store)
    (htrends : c.image.trends.size ≤ c'.image.trends.size)
    (hschedule : c'.schedule = c.schedule) : c'.WellFormed := by
  refine ⟨?_, ?_, ?_⟩
  · rw [hcode.nodes]
    exact NodesInRange.mono hstore.size_le htrends h.nodes
  · rw [hcode.nodes, hcode.programs]
    intro p hp line hline
    obtain ⟨hrefers, htargets⟩ := h.lines p hp line hline
    exact ⟨hrefers.mono hstore (Nat.le_refl _) fun _ hkind => hkind, htargets⟩
  · rw [hschedule, hcode.programs]
    exact h.bound

theorem WellFormed.withStore (h : c.WellFormed) {store : Store}
    (hstore : c.machine.store.Keeps store) : (c.withStore store).WellFormed :=
  h.congr (c.withStore_sameCode store) hstore (Nat.le_refl _) rfl

/-- Nothing is written down in a controller without a model. -/
theorem wellFormed_ofSettings (settings : Settings) (stream : RandomStream) :
    (ofSettings settings stream).WellFormed := by
  refine ⟨?_, ?_, ?_⟩
  · intro id n hn
    simp [ofSettings] at hn
  · simp [ofSettings, Image.programs, Catalog.empty]
  · simp [ofSettings, Schedule.programs, Schedule.empty]

/-- A program that is added leaves the kinds of the others as they are. -/
theorem kind_push {programs : Array Program} {added : Program} {id : ProgramId}
    {kind : ProgramKind} (h : (programs[id]?).map Program.kind = some kind) :
    ((programs.push added)[id]?).map Program.kind = some kind := by
  obtain ⟨p, hp, hkind⟩ := Option.map_eq_some_iff.1 h
  have hlt : id < programs.size := (Array.getElem?_eq_some_iff.1 hp).1
  rw [Array.getElem?_push, if_neg (Nat.ne_of_lt hlt)]
  exact h

theorem WellFormed.addProgram (h : c.WellFormed) {added : Program} (hlines : added.lines = #[]) :
    WellFormed { c with
      image := { c.image with programCatalog := c.image.programCatalog.push added }
      compiled := false } := by
  refine ⟨h.nodes, ?_, fun point id hid => kind_push (h.bound point id hid)⟩
  intro p hp line hline
  rcases Array.mem_push.1 hp with hold | rfl
  · obtain ⟨hrefers, htargets⟩ := h.lines p hold line hline
    exact ⟨hrefers.mono (.refl _) (Nat.le_refl _) fun _ hkind => kind_push hkind, htargets⟩
  · rw [hlines] at hline
    simp at hline

/-- Binding appends a program to those of one calling point. -/
theorem programs_bind (schedule : Schedule) (point point' : CallingPoint) (id : ProgramId) :
    (schedule.bind point id).programs point'
      = schedule.programs point' ++ if point = point' then [id] else [] := by
  unfold Schedule.programs Schedule.bind
  rw [Array.toList_push, List.filterMap_append]
  by_cases hpoint : point = point' <;> simp [hpoint]

theorem WellFormed.bind (h : c.WellFormed) (point : CallingPoint) {id : ProgramId}
    (hid : (c.image.programs[id]?).map Program.kind = some .main) :
    WellFormed { c with schedule := c.schedule.bind point id } := by
  refine ⟨h.nodes, h.lines, fun point' id' hid' => ?_⟩
  rw [programs_bind, List.mem_append] at hid'
  rcases hid' with hold | hnew
  · exact h.bound point' id' hold
  · split at hnew
    · rw [List.mem_singleton.1 hnew]
      exact hid
    · cases hnew

/-- After compiling tables are well formed, whatever problems were found. -/
theorem WellFormed.compile (h : c.WellFormed) : c.compile.WellFormed := by
  obtain ⟨hnodes, hlines⟩ := c.compile_refers
  refine ⟨hnodes, ?_, ?_⟩
  · intro p hp line hline
    refine ⟨hlines p hp line hline, ?_⟩
    -- a program with a line has no problem of its own, so it is compiled
    obtain ⟨id, hid⟩ := Array.getElem?_of_mem hp
    have hsome : p.lines ≠ #[] := by
      intro hnone
      rw [hnone] at hline
      simp at hline
    exact (c.compile_spec.2.2 id p hid (.inr hsome)).targets_lt line hline
  · intro point id hid
    rw [c.compile_kind]
    exact h.bound point id hid

theorem RunsTo.wellFormed {point : CallingPoint} {r : Except RunError (List Outcome)}
    (h : RunsTo c point r c') (hc : c.WellFormed) : c'.WellFormed := by
  refine hc.congr h.sameCode (.of_origin?_eq h.origin?) ?_ ?_
  · cases h with
    | done _ _ _ =>
      exact Nat.le_of_eq (Array.size_map ..).symm
    | _ => exact Nat.le_refl _
  · cases h <;> rfl

/-- Whatever a host does, tables stay well formed. -/
theorem Does.wellFormed (h : Does c c') (hc : c.WellFormed) : c'.WellFormed := by
  have hstore := h.keeps
  obtain ⟨_, heffect⟩ := h.effect
  cases heffect with
  | addProgram _ hlines => exact hc.addProgram hlines
  | bind point hkind => exact hc.bind point hkind
  | compile => exact hc.compile
  | run point => exact (c.run_runsTo point).wellFormed hc
  | addTrend _ =>
    exact hc.congr ⟨rfl, rfl, rfl⟩ hstore (c.image.trendCatalog.size_le_push _) rfl
  | host routines curves cells constructions =>
    exact hc.congr ⟨rfl, rfl, rfl⟩ hstore (Nat.le_refl _) rfl
  | publish _ => exact hc.congr ⟨rfl, rfl, rfl⟩ hstore (Nat.le_refl _) rfl
  | refuse problem => exact hc.congr ⟨rfl, rfl, rfl⟩ hstore (Nat.le_refl _) rfl
  | addVariable _ _ _ => exact hc.congr ⟨rfl, rfl, rfl⟩ hstore (Nat.le_refl _) rfl
  | assign v _ => exact hc.withStore hstore
  | updateClock clock => exact hc.withStore hstore

theorem Reachable.wellFormed (h : Reachable c) : c.WellFormed := by
  induction h with
  | ofSettings settings stream => exact wellFormed_ofSettings settings stream
  | does _ hdoes ih => exact hdoes.wellFormed ih

/-! ## Compiled controllers -/

/-- A controller that may run has the code that compiling gave at some time before. -/
theorem Reachable.compiled_at (h : Reachable c) (hcompiled : c.compiled = true) :
    ∃ c₀, Reachable c₀ ∧ Later c₀.compile c ∧ SameCode c₀.compile c := by
  induction h with
  | ofSettings settings stream => cases hcompiled
  | @does c c' hreach hdoes ih =>
    obtain hsame | ⟨-, -, -, -, hnot⟩ | rfl := hdoes.code
    · obtain ⟨c₀, hreach₀, hlater, hsame₀⟩ := ih (hsame.compiled ▸ hcompiled)
      exact ⟨c₀, hreach₀, hlater.tail hdoes, hsame₀.trans hsame⟩
    · rw [hnot] at hcompiled
      cases hcompiled
    · exact ⟨c, hreach, .refl, rfl, rfl, rfl⟩

/-- The programs of a controller that may run are compiled from their sources. -/
theorem SameCode.isCompiled {c₀ : Controller} (h : SameCode c₀.compile c)
    (hcompiled : c.compiled = true) {id : ProgramId} {p : Program}
    (hp : c.image.programs[id]? = some p) :
    p.IsCompiled ⟨c₀.compile.machine.store, c₀.compile.image.trends, id⟩ c.image.nodes
      c.image.programs := by
  rw [h.programs] at hp
  rw [h.nodes, h.programs]
  exact c₀.compile_spec.2.2 id p hp (.inl (h.compiled ▸ hcompiled))

/-- Tables are well formed, whatever a host does.

    The operands of nodes refer to nodes before them, to variables and to trends that exist, and
    there are as many of them as the operation takes.  Lines refer to nodes, variables and lines
    that exist, calls run subroutines, and only main programs are bound.  While a controller may
    run, its code is that of an earlier time at which all programs were compiled, each from its
    own source.  Wherever an invocation comes to, no expression of a line is evaluated by way of
    a missing node, a wrong number of operands, or a variable or trend out of range: it would
    make no difference what happened then. -/
theorem Reachable.tables_wellFormed (h : Reachable c) :
    c.WellFormed
      ∧ (c.compiled = true → ∃ c₀, Reachable c₀ ∧ Later c₀.compile c ∧ SameCode c₀.compile c
          ∧ ∀ (id : ProgramId) (p : Program), c.image.programs[id]? = some p →
              p.IsCompiled ⟨c₀.compile.machine.store, c₀.compile.image.trends, id⟩ c.image.nodes
                c.image.programs)
      ∧ ∀ (depth d : Nat) (id current : ProgramId) (cursor : Cursor) (m m' : Machine)
          (p : Program) (line : ReadyLine) (e : NodeId) (trap : Exec Value),
          c.machine.store.size ≤ m.store.size → c.image.Visits depth id m d current cursor m' →
          c.image.programs[current]? = some p → line ∈ p.lines →
          line.instruction.expression? = some e →
          c.image.evaluateOr trap p.name e m' = c.image.evaluate p.name e m' := by
  have hwell := h.wellFormed
  refine ⟨hwell, ?_, ?_⟩
  · intro hcompiled
    obtain ⟨c₀, hreach, hlater, hsame⟩ := h.compiled_at hcompiled
    exact ⟨c₀, hreach, hlater, hsame, fun id p hp => hsame.isCompiled hcompiled hp⟩
  · intro depth d id current cursor m m' p line e trap hm hvisits hp hline he
    have hsize : m'.store.size = m.store.size := hvisits.becomes.size
    have hrefers := (hwell.lines p (Array.mem_of_getElem? hp) line hline).1
    exact Image.evaluateOr_eq hwell.nodes trap p.name (hrefers.expression_lt he) (by omega)

/-- A controller with a loop that calls a subroutine, which got a global since it was
    compiled. -/
def extended : Controller :=
  let c := ((Controller.ofSettings .default .zero).addProgram "main"
    "WHILE day < @Mod n 7\n  RUN sub\nENDWHILE").2
  let c := (c.addSubroutine "sub" "IF hour\n  SET n = -n\nENDIF").2
  ((c.bindProgram .beginNewEnvironment "main").2.compile.addGlobal "n" .user).2

theorem Reachable.tables_wellFormed_extended :
    Reachable extended ∧ extended.compiled = true ∧ extended.WellFormed
      ∧ (∃ c₀, Reachable c₀ ∧ Later c₀.compile extended ∧ SameCode c₀.compile extended
          ∧ ∀ (id : ProgramId) (p : Program), extended.image.programs[id]? = some p →
              p.IsCompiled ⟨c₀.compile.machine.store, c₀.compile.image.trends, id⟩
                extended.image.nodes extended.image.programs)
      ∧ ∃ p line e, extended.image.programs[0]? = some p ∧ p.lines[0]? = some line
          ∧ line.instruction.expression? = some e
          ∧ ∀ trap, extended.image.evaluateOr trap p.name e extended.machine
              = extended.image.evaluate p.name e extended.machine := by
  have hreach : Reachable extended :=
    (((((Reachable.ofSettings .default .zero).does (.addProgram _ _)).does
      (.addSubroutine _ _)).does (.bindProgram _ _)).does .compile).does (.addGlobal _ _)
  obtain ⟨hwell, hcompiled, hevaluate⟩ := hreach.tables_wellFormed
  have hrun : extended.compiled = true
      ∧ (((extended.image.programs[0]?).bind (·.lines[0]?)).bind
          (·.instruction.expression?)).isSome = true := by
    decide +kernel
  obtain ⟨e, he⟩ := Option.isSome_iff_exists.1 hrun.2
  obtain ⟨line, hline, he⟩ := Option.bind_eq_some_iff.1 he
  obtain ⟨p, hp, hline⟩ := Option.bind_eq_some_iff.1 hline
  refine ⟨hreach, hrun.1, hwell, hcompiled hrun.1, p, line, e, hp, hline, he, fun trap => ?_⟩
  exact hevaluate 0 0 0 0 _ _ _ p line e trap (Nat.le_refl _) .start hp
    (Array.mem_of_getElem? hline) he

end Controller

end Erl
