/-
  Erl.Proofs.Guise.Lowering

  Sources are compiled alike in two guises.

  A name is looked up without regard to its spelling, so both controllers find the same variable,
  trend or subroutine, or both find none and create a local at the same position.  Nodes are made in
  the same order, hence the code is the same; a line that one controller refuses is refused by the
  other for the same reason.
-/

import Erl.Proofs.Controller.Replay
import Erl.Proofs.Guise.Basic

namespace Erl.Guise

open Respelling

variable {g : Guise}

/-! ## Compiling side by side -/

variable (g) in
structure SameLowering (s s' : Lowering) : Prop where
  store : g.store s.store = g.store s'.store
  log : g.SameLog s.log s'.log
  nodes : s.nodes = s'.nodes

variable (g) in
/-- Two computations whose results look the same. -/
def LowersAlike {α γ : Type} (view : α → γ) (x y : Lower α) : Prop :=
  ∀ s s' : Lowering, g.SameLowering s s' →
    view (x.run s).1 = view (y.run s').1 ∧ g.SameLowering (x.run s).2 (y.run s').2

namespace LowersAlike

variable {α β γ δ : Type} {view : α → γ} {view' : β → δ}

theorem pure {a a' : α} (h : view a = view a') :
    g.LowersAlike view (Pure.pure a) (Pure.pure a') :=
  fun _ _ hs => ⟨h, hs⟩

theorem bind {x y : Lower α} {f k : α → Lower β} (hx : g.LowersAlike view x y)
    (hf : ∀ a a', view a = view a' → g.LowersAlike view' (f a) (k a')) :
    g.LowersAlike view' (x >>= f) (y >>= k) := by
  intro s s' hs
  obtain ⟨hview, hnext⟩ := hx s s' hs
  exact hf _ _ hview _ _ hnext

/-- A computation that goes on from the same result. -/
theorem andThen {x y : Lower α} {f k : α → Lower β} (hx : g.LowersAlike id x y)
    (hf : ∀ a, g.LowersAlike view' (f a) (k a)) : g.LowersAlike view' (x >>= f) (y >>= k) :=
  hx.bind fun a a' h => by
    obtain rfl : a = a' := h
    exact hf a

theorem push (n : Node) : g.LowersAlike id (Lower.push n) (Lower.push n) := by
  intro s s' hs
  refine ⟨congrArg Array.size hs.nodes, hs.store, hs.log, ?_⟩
  show s.nodes.push n = s'.nodes.push n
  rw [hs.nodes]

end LowersAlike

variable (g) in
/-- The result of compiling an instruction, with its problem in the other spelling. -/
def lowered {α : Type} : Except ModelProblem α → Except ModelProblem α
  | .ok a => .ok a
  | .error problem => .error (g.problem problem)

theorem lowered_inj {α : Type} {x y : Except ModelProblem α} (h : g.lowered x = g.lowered y) :
    (∃ a, x = .ok a ∧ y = .ok a)
      ∨ ∃ problem problem', x = .error problem ∧ y = .error problem'
        ∧ g.problem problem = g.problem problem' := by
  cases x with
  | ok a =>
    cases y with
    | ok a' => exact .inl ⟨a, rfl, congrArg Except.ok (Except.ok.inj h).symm⟩
    | error problem' => cases h
  | error problem =>
    cases y with
    | ok a' => cases h
    | error problem' => exact .inr ⟨problem, problem', rfl, rfl, Except.error.inj h⟩

/-- Problems that name something are the same up to the spelling of the name. -/
theorem lowered_error {α : Type} (refuse : String → ModelProblem)
    (hrefuse : ∀ s, g.problem (refuse s) = refuse (g.spell s)) {name name' : String}
    (hname : g.spell name = g.spell name') :
    g.lowered (.error (refuse name) : Except ModelProblem α)
      = g.lowered (.error (refuse name')) := by
  rw [lowered, lowered, hrefuse, hrefuse, hname]

/-! ## Names -/

variable (g) in
/-- Two sites at which names stand for the same. -/
structure SameSite (site site' : Site) : Prop where
  trends : site.trends = site'.trends
  program : site.program = site'.program
  name : site.name = site'.name
  programs : site.programs.map g.program = site'.programs.map g.program

theorem trendNamed?_same (trends : Array Trend) {name name' : String}
    (h : g.spell name = g.spell name') : trendNamed? trends name = trendNamed? trends name' := by
  unfold trendNamed?
  congr 1
  funext t
  exact sameName_spell t.name h

namespace SameSite

variable {site site' : Site}

section Names

variable (h : g.SameSite site site')
include h

theorem resolve?_eq {s s' : Lowering} (hs : g.SameLowering s s') {name name' : String}
    (hname : g.spell name = g.spell name') :
    (site.names s).resolve? name = (site'.names s').resolve? name' := by
  have hlookup : s.store.lookup? site.program name = s'.store.lookup? site'.program name' := by
    rw [h.program, lookup?_eq hs.store _ hname]
  have htrend : trendNamed? site.trends name = trendNamed? site'.trends name' := by
    rw [h.trends, trendNamed?_same _ hname]
  rw [Naming.resolve?_eq, Naming.resolve?_eq]
  simp only [Site.names, hlookup, htrend]

/-- The warning about a name is the same up to the spelling of the name. -/
theorem warnUndefined_alike {s s' : Lowering} (hs : g.SameLowering s s') {name name' : String}
    (hname : g.spell name = g.spell name') (line : Nat) :
    g.SameLog ((site.warnUndefined name line).run s).2.log
      ((site'.warnUndefined name' line).run s').2.log := by
  show g.SameLog (s.log.record .warning (some site.name) _)
    (s'.log.record .warning (some site'.name) _)
  rw [h.name]
  refine hs.log.record .warning (some site'.name) ?_
  simp only [g.spell_append, hname]

theorem lowerName_alike {name name' : String} (hname : g.spell name = g.spell name')
    {location location' : Location} (hplace : g.place location = g.place location') :
    g.LowersAlike id (site.lowerName name location) (site'.lowerName name' location') := by
  intro s s' hs
  have hline : location.line = location'.line := by
    rw [← g.line_place location, hplace, g.line_place]
  rw [site.run_lowerName, site'.run_lowerName, h.resolve?_eq hs hname]
  cases (site'.names s').resolve? name' with
  | some r => exact ⟨rfl, hs⟩
  | none =>
    refine ⟨congrArg Operand.variableRef (size_eq hs.store), ?_, ?_, hs.nodes⟩
    · rw [h.program]
      exact push_local_congr hs.store site'.program hname .user
    · rw [hline]
      exact h.warnUndefined_alike hs hname location'.line

theorem trendArgument?_same (f : Builtin) {arg arg' : Expr} (harg : g.expr arg = g.expr arg') :
    site.trendArgument? f arg = site'.trendArgument? f arg' := by
  unfold Site.trendArgument?
  cases f with
  | trend f =>
    cases arg <;> cases arg' <;> simp only [Transcription.expr, Expr.map, reduceCtorEq] at harg <;>
      try rfl
    injection harg with hname
    dsimp only
    rw [site.trend?_eq, site'.trend?_eq, h.trends, trendNamed?_same _ hname]
  | math f => rfl
  | air f => rfl
  | message f => rfl
  | curveValue => rfl

end Names

/-! ## Expressions

The two expressions have the same shape, so one induction serves both. -/

theorem exprs_cons {e e' : Expr} {es es' : List Expr}
    (heq : g.exprs (e :: es) = g.exprs (e' :: es')) :
    g.expr e = g.expr e' ∧ g.exprs es = g.exprs es' :=
  List.cons.inj heq

mutual

theorem lower_alike (h : g.SameSite site site') : ∀ {e e' : Expr}, g.expr e = g.expr e' →
    g.LowersAlike id (site.lower e) (site'.lower e')
  | .literal l, e', heq => by
    cases e' <;> simp only [Transcription.expr, Expr.map, reduceCtorEq] at heq
    injection heq with hl
    subst hl
    rw [Site.lower, Site.lower]
    exact .pure rfl
  | .name s location, e', heq => by
    cases e' <;> simp only [Transcription.expr, Expr.map, reduceCtorEq] at heq
    injection heq with hname hplace
    rw [Site.lower, Site.lower]
    exact h.lowerName_alike hname hplace
  | .negate e, e', heq => by
    cases e' <;> simp only [Transcription.expr, Expr.map, reduceCtorEq] at heq
    injection heq with he
    rw [Site.lower, Site.lower]
    refine (h.lower_alike he).andThen fun o => ?_
    exact (LowersAlike.push _).andThen fun id => .pure rfl
  | .binary op a b, e', heq => by
    cases e' <;> simp only [Transcription.expr, Expr.map, reduceCtorEq] at heq
    injection heq with hop ha hb
    subst hop
    rw [Site.lower, Site.lower]
    refine (h.lower_alike ha).andThen fun left => ?_
    refine (h.lower_alike hb).andThen fun right => ?_
    exact (LowersAlike.push _).andThen fun id => .pure rfl
  | .call f args location, e', heq => by
    cases e' <;> simp only [Transcription.expr, Expr.map, reduceCtorEq] at heq
    injection heq with hf hargs
    subst hf
    rw [Site.lower, Site.lower]
    refine (h.lowerArguments_alike f hargs).andThen fun operands => ?_
    exact (LowersAlike.push _).andThen fun id => .pure rfl

theorem lowerArguments_alike (h : g.SameSite site site') (f : Builtin) : ∀ {args args' : List Expr},
    g.exprs args = g.exprs args' →
    g.LowersAlike id (site.lowerArguments f args) (site'.lowerArguments f args')
  | [], [], _ => by
    rw [Site.lowerArguments, Site.lowerArguments]
    exact .pure rfl
  | [], _ :: _, heq => by cases heq
  | _ :: _, [], heq => by cases heq
  | arg :: rest, arg' :: rest', heq => by
    obtain ⟨harg, hrest⟩ := exprs_cons heq
    rw [Site.lowerArguments, Site.lowerArguments, h.trendArgument?_same f harg]
    split
    · refine (LowersAlike.pure rfl).andThen fun first => ?_
      exact (h.lowerAll_alike hrest).andThen fun others => .pure rfl
    · refine (h.lower_alike harg).andThen fun first => ?_
      exact (h.lowerAll_alike hrest).andThen fun others => .pure rfl

theorem lowerAll_alike (h : g.SameSite site site') : ∀ {es es' : List Expr},
    g.exprs es = g.exprs es' →
    g.LowersAlike id (site.lowerAll es) (site'.lowerAll es')
  | [], [], _ => by
    rw [Site.lowerAll, Site.lowerAll]
    exact .pure rfl
  | [], _ :: _, heq => by cases heq
  | _ :: _, [], heq => by cases heq
  | e :: rest, e' :: rest', heq => by
    obtain ⟨he, hrest⟩ := exprs_cons heq
    rw [Site.lowerAll, Site.lowerAll]
    refine (h.lower_alike he).andThen fun first => ?_
    exact (h.lowerAll_alike hrest).andThen fun others => .pure rfl

end

section Lines

variable (h : g.SameSite site site')
include h

theorem lowerWhole_alike {e e' : Expr} (heq : g.expr e = g.expr e') :
    g.LowersAlike id (site.lowerWhole e) (site'.lowerWhole e') := by
  refine (h.lower_alike heq).andThen fun o => ?_
  split
  · exact .pure rfl
  · exact .push _

/-! ## Lines -/

theorem lowerTarget_alike {name name' : String} (hname : g.spell name = g.spell name')
    (line : Nat) :
    g.LowersAlike g.lowered (site.lowerTarget name line) (site'.lowerTarget name' line) := by
  intro s s' hs
  rw [site.run_lowerTarget, site'.run_lowerTarget, h.resolve?_eq hs hname, h.name]
  cases (site'.names s').resolve? name' with
  | some r =>
    cases r with
    | variableAt id =>
      refine ⟨?_, hs⟩
      dsimp only
      rw [isProtected_eq hs.store]
      split
      · exact lowered_error (.readOnlyAssignment site'.name · line) (fun _ => rfl) hname
      · rfl
    | trendAt id =>
      exact ⟨lowered_error (.trendAssignment site'.name · line) (fun _ => rfl) hname, hs⟩
  | none =>
    refine ⟨congrArg Except.ok (size_eq hs.store), ?_, hs.log, hs.nodes⟩
    rw [h.program]
    exact push_local_congr hs.store site'.program hname .user

theorem lowerCallee_alike {name name' : String} (hname : g.spell name = g.spell name')
    (line : Nat) :
    g.lowered (site.lowerCallee name line) = g.lowered (site'.lowerCallee name' line) := by
  have hrefused : g.lowered (Except.error (.unknownSubroutine site.name name line))
      = g.lowered (Except.error (.unknownSubroutine site'.name name' line) :
          Except ModelProblem ProgramId) := by
    rw [h.name]
    exact lowered_error (.unknownSubroutine site'.name · line) (fun _ => rfl) hname
  unfold Site.lowerCallee
  rw [site.program?_eq, site'.program?_eq, programNamed?_eq h.programs hname]
  cases programNamed? site'.programs name' with
  | none => exact hrefused
  | some id =>
    dsimp only
    rw [kind_eq h.programs]
    cases (site'.programs[id]?).map Program.kind with
    | none => exact hrefused
    | some kind =>
      cases kind with
      | main => exact hrefused
      | subroutine => rfl

theorem lowerInstruction_alike (line : Nat) {i i' : Instruction String Expr String}
    (heq : g.instruction i = g.instruction i') :
    g.LowersAlike g.lowered (site.lowerInstruction line i) (site'.lowerInstruction line i') := by
  cases i with
  | set name value =>
    cases i' <;> simp only [Transcription.instruction, reduceCtorEq] at heq
    injection heq with hname hvalue
    refine (h.lowerTarget_alike hname line).bind fun target target' htarget => ?_
    obtain ⟨id, rfl, rfl⟩ | ⟨problem, problem', rfl, rfl, hproblem⟩ := lowered_inj htarget
    · exact (h.lowerWhole_alike hvalue).andThen fun n => .pure rfl
    · exact .pure (congrArg Except.error hproblem)
  | run name =>
    cases i' <;> simp only [Transcription.instruction, reduceCtorEq] at heq
    injection heq with hname
    refine .pure ?_
    obtain ⟨id, hleft, hright⟩ | ⟨problem, problem', hleft, hright, hproblem⟩ :=
      lowered_inj (h.lowerCallee_alike hname line)
    · rw [hleft, hright]
    · rw [hleft, hright]
      exact congrArg Except.error hproblem
  | return_ =>
    cases i' <;> simp only [Transcription.instruction, reduceCtorEq] at heq
    exact .pure rfl
  | if_ condition next =>
    cases i' <;> simp only [Transcription.instruction, reduceCtorEq] at heq
    injection heq with hcondition hnext
    subst hnext
    exact (h.lowerWhole_alike hcondition).andThen fun n => .pure rfl
  | elseIf condition next stop =>
    cases i' <;> simp only [Transcription.instruction, reduceCtorEq] at heq
    injection heq with hcondition hnext hstop
    subst hnext hstop
    exact (h.lowerWhole_alike hcondition).andThen fun n => .pure rfl
  | else_ stop =>
    cases i' <;> simp only [Transcription.instruction, reduceCtorEq] at heq
    injection heq with hstop
    subst hstop
    exact .pure rfl
  | endIf =>
    cases i' <;> simp only [Transcription.instruction, reduceCtorEq] at heq
    exact .pure rfl
  | while_ condition stop =>
    cases i' <;> simp only [Transcription.instruction, reduceCtorEq] at heq
    injection heq with hcondition hstop
    subst hstop
    exact (h.lowerWhole_alike hcondition).andThen fun n => .pure rfl
  | endWhile start =>
    cases i' <;> simp only [Transcription.instruction, reduceCtorEq] at heq
    injection heq with hstart
    subst hstart
    exact .pure rfl

theorem lowerLines_alike {source source' : List SourceLine}
    (heq : source.map g.sourceLine = source'.map g.sourceLine) :
    g.LowersAlike (fun r => (r.1.map g.readyLine, r.2.map g.problem)) (site.lowerLines source)
      (site'.lowerLines source') := by
  induction source generalizing source' with
  | nil =>
    obtain rfl := List.map_eq_nil_iff.1 heq.symm
    exact .pure rfl
  | cons line rest ih =>
    cases source' with
    | nil => cases heq
    | cons line' rest' =>
      obtain ⟨hline, hrest⟩ := List.cons.inj heq
      injection hline with hplace htext hinstruction
      have hnumber : line.location.line = line'.location.line := by
        rw [← g.line_place line.location, hplace, g.line_place]
      rw [Site.lowerLines, Site.lowerLines, hnumber]
      refine (h.lowerInstruction_alike _ hinstruction).bind fun result result' hresult => ?_
      refine (ih hrest).bind fun others others' hothers => ?_
      obtain ⟨hlines, hproblems⟩ := Prod.mk.inj hothers
      obtain ⟨i, rfl, rfl⟩ | ⟨problem, problem', rfl, rfl, hproblem⟩ := lowered_inj hresult
      · refine .pure (Prod.ext ?_ hproblems)
        show g.readyLine _ :: others.1.map g.readyLine = g.readyLine _ :: others'.1.map g.readyLine
        rw [hlines, readyLine, readyLine, hplace, htext]
      · refine .pure (Prod.ext hlines ?_)
        show g.problem problem :: others.2.map g.problem
          = g.problem problem' :: others'.2.map g.problem
        rw [hproblem, hproblems]

theorem compile_alike {source source' : String}
    (heq : g.code (parseCode source) = g.code (parseCode source')) :
    g.LowersAlike (fun r => (r.1.map g.readyLine, r.2.map g.problem)) (site.compile source)
      (site'.compile source') := by
  unfold Site.compile
  generalize parseCode source = x at heq
  generalize parseCode source' = y at heq
  cases x with
  | error e =>
    cases y with
    | ok lines' => cases heq
    | error e' =>
      refine .pure (Prod.ext rfl ?_)
      show [ModelProblem.parse site.name (g.error e)] = [ModelProblem.parse site'.name (g.error e')]
      rw [h.name, Except.error.inj heq]
  | ok lines =>
    cases y with
    | error e' => cases heq
    | ok lines' =>
      have hlines : lines.toList.map g.sourceLine = lines'.toList.map g.sourceLine := by
        rw [← Array.toList_map, ← Array.toList_map, Except.ok.inj heq]
      refine (h.lowerLines_alike hlines).bind fun r r' hr => ?_
      obtain ⟨hready, hproblems⟩ := Prod.mk.inj hr
      -- a program keeps its lines only if none of them has a problem, so in both or in neither
      have hempty : r.2.isEmpty = r'.2.isEmpty := by
        rw [← List.isEmpty_map (f := g.problem), hproblems, List.isEmpty_map]
      dsimp only
      rw [hempty]
      split
      · refine .pure (Prod.ext ?_ rfl)
        show r.1.toArray.map g.readyLine = r'.1.toArray.map g.readyLine
        rw [List.map_toArray, List.map_toArray, hready]
      · exact .pure (Prod.ext rfl hproblems)

end Lines

end SameSite

/-! ## Controllers -/

/-- Programs are compiled alike, one after another. -/
theorem compilePrograms_alike (trends : Catalog Trend.foldedName)
    {all all' : Catalog Program.foldedName}
    (hall : all.entries.map g.program = all'.entries.map g.program)
    {programs programs' : List Program}
    (hprograms : programs.map g.program = programs'.map g.program)
    (hsources : programs.map g.sourceCode = programs'.map g.sourceCode) (id : ProgramId) :
    g.LowersAlike (fun r => (r.1.map g.program, r.1.map g.sourceCode, r.2.map g.problem))
      (Controller.compilePrograms trends all id programs)
      (Controller.compilePrograms trends all' id programs') := by
  induction programs generalizing programs' id with
  | nil =>
    obtain rfl := List.map_eq_nil_iff.1 hprograms.symm
    exact .pure rfl
  | cons p rest ih =>
    cases programs' with
    | nil => cases hprograms
    | cons p' rest' =>
      obtain ⟨hp, hrest⟩ := List.cons.inj hprograms
      obtain ⟨hsource, hothers⟩ := List.cons.inj hsources
      have hsame := sameProgram_of_eq hp
      rw [Controller.compilePrograms, Controller.compilePrograms]
      have hsite : g.SameSite ⟨trends, all, id, p.name⟩ ⟨trends, all', id, p'.name⟩ :=
        ⟨rfl, rfl, hsame.name, hall⟩
      refine (hsite.compile_alike hsource).bind fun r r' hr => ?_
      refine (ih hrest hothers (id + 1)).bind fun others others' hothers => ?_
      obtain ⟨hlines, hproblems⟩ := Prod.mk.inj hr
      obtain ⟨hcompiled, hcodes⟩ := Prod.mk.inj hothers
      obtain ⟨hcodes, hproblems'⟩ := Prod.mk.inj hcodes
      refine .pure (Prod.ext ?_ (Prod.ext ?_ ?_))
      · show g.program _ :: others.1.map g.program = g.program _ :: others'.1.map g.program
        rw [hcompiled, Respelling.program, Respelling.program, hsame.name, hsame.kind, hlines]
      · show g.sourceCode _ :: others.1.map g.sourceCode
          = g.sourceCode _ :: others'.1.map g.sourceCode
        rw [hcodes]
        exact congrArg (· :: _) hsource
      · show (r.2 ++ others.2).map g.problem = (r'.2 ++ others'.2).map g.problem
        rw [List.map_append, List.map_append, hproblems, hproblems']

theorem isFoundByCompiling_problem (p : ModelProblem) :
    (g.problem p).isFoundByCompiling = p.isFoundByCompiling := by
  cases p <;> rfl

/-- Problems of declarations stay the same apart from their spelling. -/
theorem filter_problems {problems problems' : List ModelProblem}
    (h : problems.map g.problem = problems'.map g.problem) :
    (problems.filter (!·.isFoundByCompiling)).map g.problem
      = (problems'.filter (!·.isFoundByCompiling)).map g.problem := by
  have hview : ∀ problems : List ModelProblem,
      (problems.filter (!·.isFoundByCompiling)).map g.problem
        = (problems.map g.problem).filter (!·.isFoundByCompiling) := fun problems => by
    rw [List.filter_map]
    congr 2
    funext p
    exact congrArg (!·) (isFoundByCompiling_problem p).symm
  rw [hview, h, ← hview]

/-- Compiling keeps two controllers the same. -/
theorem SameController.compile {c c' : Controller} (h : g.SameController c c') :
    g.SameController c.compile c'.compile := by
  have hstart : g.SameLowering ⟨c.machine.store, c.machine.log, #[]⟩
      ⟨c'.machine.store, c'.machine.log, #[]⟩ := ⟨h.machine.store, h.machine.log, rfl⟩
  have hprograms : c.image.programs.toList.map g.program
      = c'.image.programs.toList.map g.program := by
    rw [← Array.toList_map, h.image.programs, Array.toList_map]
  have hsources : c.image.programs.toList.map g.sourceCode
      = c'.image.programs.toList.map g.sourceCode := by
    rw [← Array.toList_map, h.sources, Array.toList_map]
  obtain ⟨hresult, hfinal⟩ := compilePrograms_alike c.image.trendCatalog h.image.programs hprograms
    hsources 0 _ _ hstart
  generalize hrun : (Controller.compilePrograms c.image.trendCatalog c.image.programCatalog 0
    c.image.programs.toList).run ⟨c.machine.store, c.machine.log, #[]⟩ = r at hresult hfinal
  rw [h.image.trendCatalog] at hresult hfinal
  generalize hrun' : (Controller.compilePrograms c'.image.trendCatalog c'.image.programCatalog 0
    c'.image.programs.toList).run ⟨c'.machine.store, c'.machine.log, #[]⟩ = r' at hresult hfinal
  obtain ⟨⟨programs, found⟩, s⟩ := r
  obtain ⟨⟨programs', found'⟩, s'⟩ := r'
  rw [Controller.compile_eq hrun, Controller.compile_eq hrun']
  obtain ⟨hcompiled, hcodes⟩ := Prod.mk.inj hresult
  obtain ⟨hcodes, hfound⟩ := Prod.mk.inj hcodes
  have hproblems : (c.problems.filter (!·.isFoundByCompiling) ++ found).map g.problem
      = (c'.problems.filter (!·.isFoundByCompiling) ++ found').map g.problem := by
    rw [List.map_append, List.map_append, filter_problems h.problems, hfound]
  have hempty : (c.problems.filter (!·.isFoundByCompiling) ++ found).isEmpty
      = (c'.problems.filter (!·.isFoundByCompiling) ++ found').isEmpty := by
    rw [← List.isEmpty_map (f := g.problem), hproblems, List.isEmpty_map]
  exact
    { image := {
        left := h.image.left
        right := h.image.right
        limits := h.image.limits
        timestepHours := h.image.timestepHours
        routines := h.image.routines
        curves := h.image.curves
        trendCatalog := h.image.trendCatalog
        nodes := hfinal.nodes
        programs := by
          show programs.toArray.map g.program = programs'.toArray.map g.program
          rw [List.map_toArray, List.map_toArray, hcompiled] }
      sources := by
        show programs.toArray.map g.sourceCode = programs'.toArray.map g.sourceCode
        rw [List.map_toArray, List.map_toArray, hcodes]
      machine := ⟨hfinal.store, hfinal.log, h.machine.generator⟩
      exchange := h.exchange
      cells := h.cells
      constructions := h.constructions
      schedule := h.schedule
      problems := hproblems
      compiled := hempty
      terminated := h.terminated }

end Erl.Guise
