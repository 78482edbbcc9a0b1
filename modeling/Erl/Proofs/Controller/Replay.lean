/-
  Erl.Proofs.Controller.Replay

  Compiling a second time.

  The first pass adds locals for the names that it does not know, and warns about them.  A
  second pass over the variables that the first one left knows all names: it adds nothing and
  warns about nothing, and every name stands for the same as when the first pass came to it.
  So it makes the same nodes in the same order, refuses the same lines for the same reasons,
  and leaves the controller as it is.
-/

import Erl.Proofs.Controller.InRange

namespace Erl

open Lowering

/-! ## Names that are known -/

/-- All variables are kept, and so is what the names of every program stand for. -/
structure Store.Extends (trends : Array Trend) (t t' : Store) : Prop where
  names : ∀ program, (Naming.mk t trends program).Le ⟨t', trends, program⟩
  store : t.Grows t'

namespace Store.Extends

variable {trends : Array Trend} {t t' t'' : Store}

theorem refl (trends : Array Trend) (t : Store) : t.Extends trends t :=
  ⟨fun _ => ⟨rfl, fun h => h⟩, .refl t⟩

theorem trans (h : t.Extends trends t') (h' : t'.Extends trends t'') : t.Extends trends t'' :=
  ⟨fun program => ⟨rfl, fun hr => (h'.names program).resolve? ((h.names program).resolve? hr)⟩,
    h.store.trans h'.store⟩

/-- A local is added for a name that stands for nothing. -/
theorem push {program : ProgramId} {name : String}
    (h : (Naming.mk t trends program).resolve? name = none) :
    t.Extends trends (t.push name (.local_ program) .user) :=
  ⟨fun _ => Naming.le_addLocal _ h, .add _ _⟩

/-- Whether a variable that exists may be assigned stays the same. -/
theorem isProtected_eq (h : t.Extends trends t') {id : VariableId} (hid : id < t.size) :
    t'.isProtected id = t.isProtected id := by
  obtain ⟨o, ho⟩ := Store.exists_origin?_of_lt hid
  rw [Store.isProtected_eq, Store.isProtected_eq, ho, h.store.keeps id o ho]

end Store.Extends

/-! ## What compiling makes of a name -/

/-- A computation that looks at the state first. -/
theorem Lower.run_get_bind {α : Type} (f : Lowering → Lower α) (s : Lowering) :
    (get >>= f).run s = (f s).run s :=
  rfl

namespace Site

/-- A name is compiled to what it stands for; for one that stands for nothing a local is added
    after a warning. -/
theorem run_lowerName (site : Site) (name : String) (location : Location) (s : Lowering) :
    (site.lowerName name location).run s =
      match (site.names s).resolve? name with
      | some r => (r.operand, s)
      | none =>
        (.variableRef s.store.size,
          { ((site.warnUndefined name location.line).run s).2 with
            store := s.store.push name (.local_ site.program) .user }) := by
  have heq := (site.names s).resolve?_eq name
  simp only [names] at heq
  rw [lowerName, Lower.run_get_bind]
  cases hlookup : s.store.lookup? site.program name with
  | some id =>
    rw [names, heq, hlookup]
    rfl
  | none =>
    cases htrend : trendNamed? site.trends name with
    | some id =>
      rw [names, heq, hlookup, site.trend?_eq, htrend]
      rfl
    | none =>
      rw [names, heq, hlookup, site.trend?_eq, htrend]
      -- the warning leaves the names as they are, so the name still stands for nothing
      have hnone : (site.names ((site.warnUndefined name location.line).run s).2).resolve? name
          = none := Naming.resolve?_eq_none_iff.2 ⟨hlookup, htrend⟩
      show (fun r : VariableId × Lowering => (Operand.variableRef r.1, r.2))
        ((Lower.ensureLocal site.program name).run
          ((site.warnUndefined name location.line).run s).2) = _
      rw [run_ensureLocal hnone]
      rfl

/-- The target of an assignment is the variable that its name stands for, unless that must not be
    assigned; for a name that stands for nothing a local is added. -/
theorem run_lowerTarget (site : Site) (name : String) (line : Nat) (s : Lowering) :
    (site.lowerTarget name line).run s =
      match (site.names s).resolve? name with
      | some (.variableAt id) =>
        (if s.store.isProtected id then .error (.readOnlyAssignment site.name name line)
          else .ok id, s)
      | some (.trendAt _) => (.error (.trendAssignment site.name name line), s)
      | none =>
        (.ok s.store.size, { s with store := s.store.push name (.local_ site.program) .user }) := by
  have heq := (site.names s).resolve?_eq name
  simp only [names] at heq
  rw [lowerTarget, Lower.run_get_bind]
  dsimp only
  cases hlookup : s.store.lookup? site.program name with
  | some id =>
    rw [names, heq, hlookup]
    dsimp only
    split <;> rfl
  | none =>
    rw [site.trend?_eq]
    cases htrend : trendNamed? site.trends name with
    | some id =>
      rw [names, heq, hlookup, htrend]
      rfl
    | none =>
      have hnone : (site.names s).resolve? name = none :=
        Naming.resolve?_eq_none_iff.2 ⟨hlookup, htrend⟩
      show (fun r : VariableId × Lowering => (Except.ok r.1, r.2))
        ((Lower.ensureLocal site.program name).run s) = _
      rw [hnone, run_ensureLocal hnone]

end Site

/-! ## Replaying a computation -/

/-- `y` does on any variables that extend those `x` leaves, and on the same nodes, what `x` did:
    it has the same result and makes the same nodes.  It changes nothing else. -/
def Lower.Replays {α : Type} (trends : Array Trend) (x y : Lower α) : Prop :=
  ∀ s : Lowering, s.store.Extends trends (x.run s).2.store
    ∧ ∀ (final : Store) (log : Log), (x.run s).2.store.Extends trends final →
        y.run ⟨final, log, s.nodes⟩ = ((x.run s).1, ⟨final, log, (x.run s).2.nodes⟩)

namespace Lower.Replays

variable {α β : Type} {trends : Array Trend}

theorem pure (a : α) : Replays trends (Pure.pure a : Lower α) (Pure.pure a) :=
  fun s => ⟨.refl trends s.store, fun _ _ _ => rfl⟩

theorem bind {x y : Lower α} {f g : α → Lower β} (hx : Replays trends x y)
    (hf : ∀ a, Replays trends (f a) (g a)) : Replays trends (x >>= f) (y >>= g) := by
  intro s
  obtain ⟨hfirst, hreplay⟩ := hx s
  obtain ⟨hnext, hreplay'⟩ := hf (x.run s).1 (x.run s).2
  refine ⟨hfirst.trans hnext, fun final log hfinal => ?_⟩
  show (g (y.run ⟨final, log, s.nodes⟩).1).run (y.run ⟨final, log, s.nodes⟩).2 = _
  rw [hreplay final log (hnext.trans hfinal)]
  exact hreplay' final log hfinal

theorem push (n : Node) : Replays trends (Lower.push n) (Lower.push n) :=
  fun s => ⟨.refl trends s.store, fun _ _ _ => rfl⟩

end Lower.Replays

namespace Site

open Lower (Replays)

/-- Two sites at which names and messages are the same; the programs differ in their lines at
    most. -/
structure Twin (site site' : Site) : Prop where
  trends : site'.trends = site.trends
  program : site'.program = site.program
  name : site'.name = site.name
  programs : site'.programs.map Program.uncompiled = site.programs.map Program.uncompiled

variable {site site' : Site}

/-- A name that stood for nothing stands for its local the second time. -/
theorem Twin.lowerName_replays (h : site.Twin site') (name : String) (location : Location) :
    Replays site.trends (site.lowerName name location) (site'.lowerName name location) := by
  intro s
  rw [site.run_lowerName]
  cases hname : (site.names s).resolve? name with
  | some r =>
    refine ⟨.refl _ _, fun final log hfinal => ?_⟩
    have hsame : (site'.names ⟨final, log, s.nodes⟩).resolve? name = some r := by
      rw [names, h.trends, h.program]
      exact (hfinal.names site.program).resolve? hname
    rw [site'.run_lowerName, hsame]
  | none =>
    refine ⟨.push hname, fun final log hfinal => ?_⟩
    have hsame : (site'.names ⟨final, log, s.nodes⟩).resolve? name
        = some (.variableAt s.store.size) := by
      rw [names, h.trends, h.program]
      exact (hfinal.names site.program).resolve? (Naming.resolve?_addLocal hname)
    rw [site'.run_lowerName, hsame]
    rfl

/-- A target that was a new local is an old one the second time; all others are what they
    were. -/
theorem Twin.lowerTarget_replays (h : site.Twin site') (name : String) (line : Nat) :
    Replays site.trends (site.lowerTarget name line) (site'.lowerTarget name line) := by
  intro s
  rw [site.run_lowerTarget]
  cases hname : (site.names s).resolve? name with
  | some r =>
    refine ⟨by cases r <;> exact .refl _ _, fun final log hfinal => ?_⟩
    have hsame : (site'.names ⟨final, log, s.nodes⟩).resolve? name = some r := by
      rw [names, h.trends, h.program]
      cases r <;> exact (hfinal.names site.program).resolve? hname
    rw [site'.run_lowerTarget, hsame, h.name]
    cases r with
    | variableAt id =>
      have hid : id < s.store.size := Naming.resolve?_inRange hname 0
      have hprotected : final.isProtected id = s.store.isProtected id :=
        hfinal.isProtected_eq hid
      simp only [hprotected]
    | trendAt id => rfl
  | none =>
    refine ⟨.push hname, fun final log hfinal => ?_⟩
    have hsame : (site'.names ⟨final, log, s.nodes⟩).resolve? name
        = some (.variableAt s.store.size) := by
      rw [names, h.trends, h.program]
      exact (hfinal.names site.program).resolve? (Naming.resolve?_addLocal hname)
    -- locals may be assigned
    have hfree : final.isProtected s.store.size = false := by
      rw [hfinal.isProtected_eq (by simp), Store.isProtected_eq, Store.origin?, Store.get?_push,
        if_pos rfl]
      rfl
    rw [site'.run_lowerTarget, hsame]
    simp only [hfree, Bool.false_eq_true, if_false]

mutual

/-- An expression is compiled to the same nodes and operand the second time. -/
theorem Twin.lower_replays (h : site.Twin site') : ∀ e : Expr,
    Replays site.trends (site.lower e) (site'.lower e)
  | .literal l => by
    rw [lower, lower]
    exact .pure _
  | .name name location => by
    rw [lower, lower]
    exact h.lowerName_replays name location
  | .negate e => by
    rw [lower, lower]
    exact (h.lower_replays e).bind fun o => (Replays.push _).bind fun id => .pure _
  | .binary op a b => by
    rw [lower, lower]
    refine (h.lower_replays a).bind fun left => ?_
    refine (h.lower_replays b).bind fun right => ?_
    exact (Replays.push _).bind fun id => .pure _
  | .call f args location => by
    rw [lower, lower]
    refine (h.lowerArguments_replays f args).bind fun os => ?_
    exact (Replays.push _).bind fun id => .pure _

theorem Twin.lowerArguments_replays (h : site.Twin site') (f : Builtin) : ∀ args : List Expr,
    Replays site.trends (site.lowerArguments f args) (site'.lowerArguments f args)
  | [] => by
    rw [lowerArguments, lowerArguments]
    exact .pure _
  | arg :: rest => by
    rw [lowerArguments, lowerArguments]
    have hargument : site'.trendArgument? f arg = site.trendArgument? f arg := by
      rw [trendArgument?_eq, trendArgument?_eq, h.trends]
    rw [hargument]
    split
    · refine (Replays.pure _).bind fun first => ?_
      exact (h.lowerAll_replays rest).bind fun os => .pure _
    · refine (h.lower_replays arg).bind fun first => ?_
      exact (h.lowerAll_replays rest).bind fun os => .pure _

theorem Twin.lowerAll_replays (h : site.Twin site') : ∀ es : List Expr,
    Replays site.trends (site.lowerAll es) (site'.lowerAll es)
  | [] => by
    rw [lowerAll, lowerAll]
    exact .pure _
  | e :: rest => by
    rw [lowerAll, lowerAll]
    refine (h.lower_replays e).bind fun first => ?_
    exact (h.lowerAll_replays rest).bind fun os => .pure _

end

theorem Twin.lowerWhole_replays (h : site.Twin site') (e : Expr) :
    Replays site.trends (site.lowerWhole e) (site'.lowerWhole e) := by
  refine (h.lower_replays e).bind fun o => ?_
  split
  · exact .pure _
  · exact .push _

/-- A call runs the subroutine with the name; there is a problem if there is none. -/
theorem lowerCallee_eq_match (site : Site) (name : String) (line : Nat) :
    site.lowerCallee name line =
      match subroutineNamed? site.programs name with
      | some id => .ok id
      | none => .error (.unknownSubroutine site.name name line) := by
  unfold lowerCallee subroutineNamed?
  rw [site.program?_eq]
  cases programNamed? site.programs name with
  | none => rfl
  | some found =>
    cases hkind : (site.programs[found]?).map Program.kind with
    | none => simp [hkind, Option.filter]
    | some kind => cases kind <;> simp [hkind, Option.filter]

/-- Calls are compiled without regard to the lines of programs. -/
theorem Twin.lowerCallee_eq (h : site.Twin site') (name : String) (line : Nat) :
    site'.lowerCallee name line = site.lowerCallee name line := by
  rw [lowerCallee_eq_match, lowerCallee_eq_match, ← subroutineNamed?_uncompiled, h.programs,
    subroutineNamed?_uncompiled, h.name]

theorem Twin.lowerInstruction_replays (h : site.Twin site') (line : Nat)
    (i : Instruction String Expr String) :
    Replays site.trends (site.lowerInstruction line i) (site'.lowerInstruction line i) := by
  cases i with
  | set name value =>
    refine (h.lowerTarget_replays name line).bind fun target => ?_
    cases target with
    | error problem => exact .pure _
    | ok id => exact (h.lowerWhole_replays value).bind fun n => .pure _
  | run name =>
    rw [lowerInstruction, lowerInstruction, h.lowerCallee_eq]
    exact .pure _
  | return_ => exact .pure _
  | if_ condition next => exact (h.lowerWhole_replays condition).bind fun n => .pure _
  | elseIf condition next stop => exact (h.lowerWhole_replays condition).bind fun n => .pure _
  | else_ stop => exact .pure _
  | endIf => exact .pure _
  | while_ condition stop => exact (h.lowerWhole_replays condition).bind fun n => .pure _
  | endWhile start => exact .pure _

theorem Twin.lowerLines_replays (h : site.Twin site') (source : List SourceLine) :
    Replays site.trends (site.lowerLines source) (site'.lowerLines source) := by
  induction source with
  | nil => exact .pure _
  | cons line rest ih =>
    rw [lowerLines, lowerLines]
    refine (h.lowerInstruction_replays _ _).bind fun result => ?_
    refine ih.bind fun others => ?_
    cases result <;> exact .pure _

/-- A source is compiled to the same lines with the same problems the second time. -/
theorem Twin.compile_replays (h : site.Twin site') (source : String) :
    Replays site.trends (site.compile source) (site'.compile source) := by
  rw [compile, compile, h.name]
  cases parseCode source with
  | error e => exact .pure _
  | ok parsed =>
    refine (h.lowerLines_replays parsed.toList).bind fun result => ?_
    dsimp only
    split <;> exact .pure _

end Site

/-! ## Problems that compiling finds -/

namespace Site

variable {site : Site} {s s' : Lowering}

theorem lowerTarget_problem {name : String} {line : Nat} {problem : ModelProblem}
    (h : (site.lowerTarget name line).run s = (.error problem, s')) :
    problem.isFoundByCompiling = true := by
  rw [site.run_lowerTarget] at h
  split at h
  · split at h <;> cases h
    rfl
  · cases h
    rfl
  · cases h

theorem lowerInstruction_problem {line : Nat} {i : Instruction String Expr String}
    {problem : ModelProblem} (h : (site.lowerInstruction line i).run s = (.error problem, s')) :
    problem.isFoundByCompiling = true := by
  cases i with
  | set name value =>
    obtain ⟨target, s₁, htarget, h⟩ := Lower.bind_run h
    cases target with
    | error found =>
      cases h
      exact lowerTarget_problem htarget
    | ok id => cases h
  | run name =>
    obtain ⟨h, -⟩ := Lower.pure_run h
    rw [lowerCallee_eq_match] at h
    split at h <;> cases h
    rfl
  | return_ => cases h
  | if_ condition next => cases h
  | elseIf condition next stop => cases h
  | else_ stop => cases h
  | endIf => cases h
  | while_ condition stop => cases h
  | endWhile start => cases h

theorem lowerLines_problems {source : List SourceLine} {lines : List ReadyLine}
    {problems : List ModelProblem}
    (h : (site.lowerLines source).run s = ((lines, problems), s')) :
    ∀ problem ∈ problems, problem.isFoundByCompiling = true := by
  induction source generalizing s lines problems with
  | nil =>
    cases h
    simp
  | cons line rest ih =>
    rw [lowerLines] at h
    obtain ⟨result, s₁, hline, h⟩ := Lower.bind_run h
    obtain ⟨⟨lines', problems'⟩, s₂, hrest, h⟩ := Lower.bind_run h
    cases result with
    | error problem =>
      cases h
      exact List.forall_mem_cons.2 ⟨lowerInstruction_problem hline, ih hrest⟩
    | ok instruction =>
      cases h
      exact ih hrest

theorem compile_problems {source : String} {lines : Array ReadyLine}
    {problems : List ModelProblem}
    (h : (site.compile source).run s = ((lines, problems), s')) :
    ∀ problem ∈ problems, problem.isFoundByCompiling = true := by
  rw [compile] at h
  cases hparse : parseCode source with
  | error e =>
    rw [hparse] at h
    cases h
    simp [ModelProblem.isFoundByCompiling]
  | ok parsed =>
    rw [hparse] at h
    obtain ⟨⟨compiled, found⟩, s₁, hlines, h⟩ := Lower.bind_run h
    dsimp only at h
    split at h
    · cases h
      simp
    · cases h
      exact lowerLines_problems hlines

end Site

/-! ## All programs -/

namespace Controller

open Lower (Replays)

/-- Programs are compiled to the same lines with the same problems the second time. -/
theorem compilePrograms_replays (trends : Catalog Trend.foldedName)
    {all all' : Catalog Program.foldedName}
    (hall : all'.entries.map Program.uncompiled = all.entries.map Program.uncompiled)
    {list list' : List Program}
    (hlist : list'.map Program.uncompiled = list.map Program.uncompiled) (first : ProgramId) :
    Replays trends.entries (compilePrograms trends all first list)
      (compilePrograms trends all' first list') := by
  induction list generalizing list' first with
  | nil =>
    rw [List.map_nil, List.map_eq_nil_iff] at hlist
    rw [hlist]
    exact .pure _
  | cons p rest ih =>
    obtain ⟨p', rest', rfl, hp, hrest⟩ := List.map_eq_cons_iff.1 hlist
    obtain ⟨name, kind, source, lines⟩ := p
    obtain ⟨name', kind', source', lines'⟩ := p'
    simp only [Program.uncompiled, Program.mk.injEq] at hp
    obtain ⟨rfl, rfl, rfl, -⟩ := hp
    have hsite : Site.Twin ⟨trends, all, first, name'⟩ ⟨trends, all', first, name'⟩ :=
      ⟨rfl, rfl, rfl, hall⟩
    rw [compilePrograms, compilePrograms]
    refine (hsite.compile_replays source').bind fun result => ?_
    exact (ih hrest (first + 1)).bind fun others => .pure _

/-- Compiling finds no problems but those that it is known to find. -/
theorem compilePrograms_problems {trends : Catalog Trend.foldedName}
    {all : Catalog Program.foldedName} {list : List Program} {first : ProgramId} {s s' : Lowering}
    {programs : List Program} {problems : List ModelProblem}
    (h : (compilePrograms trends all first list).run s = ((programs, problems), s')) :
    ∀ problem ∈ problems, problem.isFoundByCompiling = true := by
  induction list generalizing first s programs problems with
  | nil =>
    cases h
    simp
  | cons p rest ih =>
    rw [compilePrograms] at h
    obtain ⟨⟨lines, found⟩, s₁, hone, h⟩ := Lower.bind_run h
    obtain ⟨⟨programs', others⟩, s₂, hrest, h⟩ := Lower.bind_run h
    cases h
    exact List.forall_mem_append.2 ⟨Site.compile_problems hone, ih hrest⟩

/-- What compiling makes of a controller, once all programs are compiled. -/
theorem compile_eq {c : Controller} {programs : List Program} {found : List ModelProblem}
    {s : Lowering}
    (h : (compilePrograms c.image.trendCatalog c.image.programCatalog 0 c.image.programs.toList).run
      ⟨c.machine.store, c.machine.log, #[]⟩ = ((programs, found), s)) :
    c.compile =
      { c with
        image := { c.image with nodes := s.nodes, programCatalog := .ofEntries programs.toArray }
        machine := { c.machine with store := s.store, log := s.log }
        problems := c.problems.filter (!·.isFoundByCompiling) ++ found
        compiled := (c.problems.filter (!·.isFoundByCompiling) ++ found).isEmpty } := by
  simp only [compile, h, Catalog.update_eq]

/-- Compiling again changes nothing: variables, nodes and lines stay as they are, no problem is
    reported twice or in another place, and no message is added.  The host is told the same. -/
theorem compile_idempotent (c : Controller) :
    c.compile.compile.verdict = c.compile.verdict ∧ c.compile.compile = c.compile := by
  generalize hrun :
    (compilePrograms c.image.trendCatalog c.image.programCatalog 0 c.image.programs.toList).run
      ⟨c.machine.store, c.machine.log, #[]⟩ = r
  obtain ⟨⟨programs, found⟩, s⟩ := r
  obtain ⟨-, -, hlist, -⟩ := compilePrograms_spec _ hrun
  have hall : (.ofEntries programs.toArray : Catalog Program.foldedName).entries.map
      Program.uncompiled = c.image.programs.map Program.uncompiled := by
    apply Array.toList_inj.1
    rw [Array.toList_map, Array.toList_map]
    exact hlist
  -- the second pass starts without nodes, on the variables that the first one left
  have hagain : (compilePrograms c.image.trendCatalog (.ofEntries programs.toArray) 0 programs).run
      ⟨s.store, s.log, #[]⟩ = ((programs, found), s) := by
    have hreplay := (compilePrograms_replays c.image.trendCatalog hall hlist 0
      ⟨c.machine.store, c.machine.log, #[]⟩).2 s.store s.log
    rw [hrun] at hreplay
    exact hreplay (.refl _ _)
  have hfirst := compile_eq hrun
  have hsecond : c.compile.compile = _ := compile_eq (by rw [hfirst]; exact hagain)
  have hfound : found.filter (!·.isFoundByCompiling) = [] := by
    have hall := compilePrograms_problems hrun
    simpa using hall
  have hsame : c.compile.compile = c.compile := by
    rw [hsecond, hfirst]
    simp only [List.filter_append, List.filter_filter, Bool.and_self, hfound, List.append_nil]
  exact ⟨congrArg verdict hsame, hsame⟩

end Controller

end Erl
