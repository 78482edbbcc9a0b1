/-
  Erl.Proofs.Controller.Acceptance

  Which models compile.

  Whether compiling succeeds can be read off the declarations and the sources.  Compiling itself
  goes through the sources line by line and adds locals as it comes to them, and what a line is
  refused for depends on the variables that there are by then.  But a local is added only for a name
  that no global and no trend has, so it takes no part in what is refused: the lines that are
  refused, and why, are the same in any order and with any locals.
-/

import Erl.Proofs.Controller.Recompile
import Erl.Proofs.Controller.RunFrame
import Erl.Proofs.Store.Index

namespace Erl

/-! ## Names that find what has them -/

/-- Every variable is what its scope and its name find. -/
def Store.Indexed (t : Store) : Prop :=
  ∀ (id : VariableId) (v : Variable), t.get? id = some v → t.find? v.scope v.name = some id

/-- That is so just where names differ. -/
theorem Store.indexed_iff {t : Store} : t.Indexed ↔ t.NamesDiffer := by
  constructor
  · intro h i j x y hx hy hkey
    obtain ⟨hscope, hname⟩ := Prod.mk.inj hkey
    have hfound := h j y hy
    rw [← hscope, ← t.find?_congr x.scope (beq_iff_eq.2 hname), h i x hx] at hfound
    exact Option.some.inj hfound
  · intro h id v hv
    rw [t.find?_eq]
    refine (KeysDiffer.findIdx?_eq_some_iff h fun x y hx hy => ?_).2
      ⟨v, hv, by simp [Text.sameName_self]⟩
    simp only [Bool.and_eq_true, beq_iff_eq, Text.sameName] at hx hy
    rw [Variable.key, Variable.key, hx.1, hy.1, hx.2, hy.2]

namespace Store.Indexed

variable {t t' : Store}

/-- A variable is added under a name that finds nothing. -/
theorem add (h : t.Indexed) {x : Variable} (hnew : t.find? x.scope x.name = none) :
    (t.add x).Indexed :=
  indexed_iff.2 ((indexed_iff.1 h).add hnew)

/-- Values do not matter. -/
theorem of_lasts (h : t.Indexed) (hlasts : t.Lasts t') (hsize : t'.size = t.size) :
    t'.Indexed :=
  indexed_iff.2 ((indexed_iff.1 h).of_lasts hlasts hsize)

/-- What a scope and a name find is the only variable that has them. -/
theorem find?_of_get? (h : t.Indexed) {id : VariableId} {v : Variable} (hv : t.get? id = some v)
    {n : String} (hname : Text.sameName v.name n = true) : t.find? v.scope n = some id := by
  rw [← t.find?_congr v.scope hname]
  exact h id v hv

end Store.Indexed

/-- Every program is what its name finds. -/
def Image.Indexed (img : Image) : Prop :=
  ∀ (id : ProgramId) (p : Program), img.programs[id]? = some p → img.findProgram? p.name = some id

theorem Image.Indexed.congr {img img' : Image} (h : img.Indexed)
    (hprograms : img'.programs = img.programs) : img'.Indexed := by
  intro id p hp
  rw [hprograms] at hp
  rw [img'.findProgram?_eq, hprograms, ← img.findProgram?_eq]
  exact h id p hp

theorem Image.Indexed.push {img : Image} (h : img.Indexed) {p : Program}
    (hnew : img.findProgram? p.name = none) :
    Image.Indexed { img with programCatalog := img.programCatalog.push p } := by
  intro id q hq
  have hpushed : (img.programs.push p)[id]? = some q := hq
  rw [Array.getElem?_push] at hpushed
  split at hpushed
  · next hid =>
    cases hpushed
    rw [hid]
    exact Catalog.find?_push_of_none hnew
  · exact find?_of_extends (prefix_push _ p) (h id q hpushed)

namespace Controller

variable {c c' : Controller}

/-! ## Controllers that were not compiled -/

/-- From one controller to another only values change, and what belongs to the host. -/
structure KeepsModel (c c' : Controller) : Prop where
  problems : c'.problems = c.problems
  compiled : c'.compiled = c.compiled
  programs : c'.image.programs = c.image.programs
  lasts : c.machine.store.Lasts c'.machine.store
  size : c'.machine.store.size = c.machine.store.size

namespace KeepsModel

theorem refl (c : Controller) : KeepsModel c c :=
  ⟨rfl, rfl, rfl, .refl _, rfl⟩

theorem withStore (c : Controller) {store : Store} (hlasts : c.machine.store.Lasts store)
    (hsize : store.size = c.machine.store.size) : KeepsModel c (c.withStore store) :=
  ⟨rfl, rfl, rfl, hlasts, hsize⟩

theorem assign (c : Controller) (id : VariableId) (v : Value) :
    KeepsModel c (c.withStore (c.machine.store.set id v)) :=
  withStore c (.set _ id v) (Store.size_set _ id v)

theorem updateClock (c : Controller) (clock : Clock) : KeepsModel c (c.updateClock clock) :=
  withStore c (.foldl (fun t _ => .set t _ _) _ _)
    (Store.size_eq_of_origin?_eq
      (Store.origin?_foldl_set _ (fun t _ id => Store.origin?_set t _ id _) _ _))

end KeepsModel

/-- There is a report that compiling would not leave as it is. -/
theorem exists_report_ne_compile (c : Controller) :
    ∃ report, ∀ c' : Controller, c'.withReport report ≠ (c.withReport report).compile := by
  -- compiling drops what an earlier pass found; here that is more than this pass finds
  refine ⟨.replicate (c.found.length + 1) (.unknownSubroutine "" "" 0), fun c' heq => ?_⟩
  have hproblems : List.replicate (c.found.length + 1) (ModelProblem.unknownSubroutine "" "" 0)
      = (List.replicate (c.found.length + 1) (ModelProblem.unknownSubroutine "" "" 0)).filter
          (!·.isFoundByCompiling) ++ c.found := congrArg problems heq
  rw [List.filter_replicate] at hproblems
  have hlength := congrArg List.length hproblems
  simp [ModelProblem.isFoundByCompiling] at hlength

/-- Nothing of a controller comes from compiling: it may not run, all variables are global, and
    names find what has them. -/
structure IsBare (c : Controller) : Prop where
  compiled : c.compiled = false
  global : ∀ (id : VariableId) (v : Variable), c.machine.store.get? id = some v → v.scope = .global
  store : c.machine.store.Indexed
  image : c.image.Indexed

namespace IsBare

theorem congr (h : IsBare c) (hcompiled : c'.compiled = c.compiled)
    (hprograms : c'.image.programs = c.image.programs)
    (hstore : c'.machine.store = c.machine.store) : IsBare c' where
  compiled := hcompiled.trans h.compiled
  global := hstore ▸ h.global
  store := hstore ▸ h.store
  image := h.image.congr hprograms

theorem keeps (h : IsBare c) (hkeeps : KeepsModel c c') : IsBare c' where
  compiled := hkeeps.compiled.trans h.compiled
  global := by
    intro id v hv
    obtain ⟨x, hx, value, rfl⟩ := hkeeps.lasts.get?_of_size hkeeps.size hv
    exact h.global id x hx
  store := h.store.of_lasts hkeeps.lasts hkeeps.size
  image := h.image.congr hkeeps.programs

theorem hasLocal (h : IsBare c) (program : ProgramId) (n : String) : ¬ c.HasLocal program n := by
  intro hlocal
  obtain ⟨id, hid⟩ := Option.ne_none_iff_exists'.1 hlocal
  obtain ⟨v, hv, hscope, -⟩ := Store.get?_of_find? hid
  rw [h.global id v hv] at hscope
  cases hscope

/-- A run that may not start changes nothing. -/
theorem run_eq (h : IsBare c) (point : CallingPoint) : (c.run point).2 = c := by
  unfold run
  rw [h.compiled]
  split <;> rfl

/-- Only compiling adds what comes from compiling. -/
theorem effect (h : IsBare c) {deed : Deed} (heffect : Effect c deed c')
    (hcompile : c' ≠ c.compile) : IsBare c' := by
  cases heffect with
  | host routines curves cells constructions => exact h.congr rfl rfl rfl
  | publish _ => exact h.congr rfl rfl rfl
  | refuse problem => exact h.congr rfl rfl rfl
  | @addVariable x b hscope hname _ =>
    refine ⟨h.compiled, fun id v hv => ?_, h.store.add (hscope ▸ hname), h.image⟩
    have hadded : (c.machine.store.add x).get? id = some v := hv
    rw [Store.get?_add] at hadded
    split at hadded
    · cases hadded
      exact hscope
    · exact h.global id v hadded
  | assign v _ => exact h.keeps (.assign c _ v)
  | updateClock clock => exact h.keeps (.updateClock c clock)
  | addTrend _ => exact h.congr rfl rfl rfl
  | addProgram hname _ => exact ⟨rfl, h.global, h.store, h.image.push hname⟩
  | bind point _ => exact h.congr rfl rfl rfl
  | compile => exact absurd rfl hcompile
  | run point =>
    rw [h.run_eq point]
    exact h

/-- A declaration does not compile.  It leaves the report as it is, whatever that is, unless it is
    refused; compiling would change some. -/
theorem declare (h : IsBare c) {d : Declaration} {r : Except ModelProblem Unit × Controller}
    (hd : c.declare? d = some r) : IsBare r.2 := by
  obtain ⟨answer, c'⟩ := r
  cases answer with
  | error problem =>
    obtain ⟨rfl, -⟩ := (declare?_isInert d).refused hd
    exact h.congr rfl rfl rfl
  | ok a =>
    -- the same declaration, with a report that tells it from compiling
    obtain ⟨report, hreport⟩ := c.exists_report_ne_compile
    have hagain := ((declare?_isInert d).accepted hd).2 report
    obtain ⟨deed, heffect⟩ := (declare?_does hagain).effect
    have hbare : IsBare (c.withReport report) := h.congr rfl rfl rfl
    exact (hbare.effect heffect (hreport c')).congr rfl rfl rfl

end IsBare

/-- A step other than compiling is a declaration, or does not touch the model. -/
theorem perform?_cases {step : SetupStep} (hstep : step.isCompile = false)
    (h : c.perform? step = some c') :
    (∃ d r, c.declare? d = some r ∧ c' = r.2) ∨ KeepsModel c c' := by
  cases step with
  | declare d =>
    obtain ⟨r, hr, rfl⟩ := Option.map_eq_some_iff.1 h
    exact .inl ⟨d, r, hr, rfl⟩
  | compile => cases hstep
  | writeGlobal name v =>
    cases h
    refine .inr ?_
    cases hwrite : c.writeGlobal name v with
    | error e => exact .refl c
    | ok c' =>
      unfold writeGlobal at hwrite
      split at hwrite
      · cases hwrite
      · split at hwrite <;> cases hwrite
        exact .assign c _ v
  | updateClock clock =>
    cases h
    exact .inr (.updateClock c clock)
  | publishConstruction name =>
    cases h
    refine .inr ?_
    unfold publishConstruction
    split <;> exact ⟨rfl, rfl, rfl, .refl _, rfl⟩
  | installRoutines routines =>
    cases h
    exact .inr ⟨rfl, rfl, rfl, .refl _, rfl⟩
  | installCurves curves =>
    cases h
    exact .inr ⟨rfl, rfl, rfl, .refl _, rfl⟩
  | addCell cell =>
    cases h
    exact .inr ⟨rfl, rfl, rfl, .refl _, rfl⟩
  | assignCell id x =>
    cases h
    exact .inr ⟨rfl, rfl, rfl, .refl _, rfl⟩
  | publishPoint p =>
    cases h
    exact .inr ⟨rfl, rfl, rfl, .refl _, rfl⟩
  | publishOutput p =>
    cases h
    exact .inr ⟨rfl, rfl, rfl, .refl _, rfl⟩
  | publishInternal p =>
    cases h
    exact .inr ⟨rfl, rfl, rfl, .refl _, rfl⟩

/-- A controller that a host sets up and does not compile; it may ask for runs. -/
inductive Drafted : Controller → Prop where
  | ofSettings (settings : Settings) (stream : RandomStream) : Drafted (ofSettings settings stream)
  | step {c c' : Controller} {step : SetupStep} : Drafted c → step.isCompile = false →
      c.perform? step = some c' → Drafted c'
  | run {c : Controller} (point : CallingPoint) : Drafted c → Drafted (c.run point).2

/-- Steps other than compiling make a draft of a draft. -/
theorem Drafted.performAll? (h : Drafted c) {steps : List SetupStep}
    (hsteps : ∀ step ∈ steps, step.isCompile = false) (hc' : c.performAll? steps = some c') :
    Drafted c' := by
  unfold Controller.performAll? at hc'
  induction steps generalizing c with
  | nil =>
    cases hc'
    exact h
  | cons step rest ih =>
    rw [List.foldlM_cons] at hc'
    obtain ⟨c₁, hfirst, hrest⟩ := Option.bind_eq_some_iff.1 hc'
    exact ih (h.step (hsteps step List.mem_cons_self) hfirst)
      (fun step hmem => hsteps step (List.mem_cons_of_mem _ hmem)) hrest

/-- At first there are the variables of the clock, which have different names. -/
theorem isBare_ofSettings (settings : Settings) (stream : RandomStream) :
    IsBare (ofSettings settings stream) where
  compiled := rfl
  global := by
    exact fun id v hv => clockVariables_global v (Array.mem_of_getElem? hv)
  store := by
    have hall : ∀ id < clockVariables.size, ∀ v ∈ clockVariables.get? id,
        clockVariables.find? v.scope v.name = some id := by decide +kernel
    exact fun id v hv => hall id (Store.lt_size_of_get? hv) v hv
  image := fun id p hp => by simp [Controller.ofSettings, Image.programs, Catalog.empty] at hp

theorem Drafted.isBare (h : Drafted c) : IsBare c := by
  induction h with
  | ofSettings settings stream => exact isBare_ofSettings settings stream
  | step _ hstep hc' ih =>
    obtain ⟨d, r, hr, rfl⟩ | hkeeps := perform?_cases hstep hc'
    · exact ih.declare hr
    · exact ih.keeps hkeeps
  | run point _ ih =>
    rw [ih.run_eq point]
    exact ih

/-- All problems of a controller that was not compiled are problems of declarations. -/
theorem Drafted.problems (h : Drafted c) :
    ∀ problem ∈ c.problems, problem.isFoundByCompiling = false := by
  induction h with
  | ofSettings settings stream => exact fun _ hproblem => by cases hproblem
  | step _ hstep hc' ih =>
    obtain ⟨d, ⟨answer, c'⟩, hr, rfl⟩ | hkeeps := perform?_cases hstep hc'
    · cases answer with
      | ok a =>
        rw [((declare?_isInert d).accepted hr).1]
        exact ih
      | error problem =>
        obtain ⟨rfl, hproblem⟩ := (declare?_isInert d).refused hr
        intro problem' hmem
        rcases List.mem_append.1 hmem with hold | hnew
        · exact ih problem' hold
        · rw [List.mem_singleton.1 hnew]
          exact hproblem
    · rw [hkeeps.problems]
      exact ih
  | run point hdrafted ih =>
    rw [hdrafted.isBare.run_eq point]
    exact ih

/-! ## Valid models -/

/-- A global has a name, in any letter case. -/
def namesGlobal (c : Controller) (n : String) : Bool :=
  c.machine.store.entries.any fun v => v.scope == .global && Text.sameName v.name n

/-- A global that must not be assigned has a name. -/
def namesReadOnly (c : Controller) (n : String) : Bool :=
  c.machine.store.entries.any fun v =>
    v.scope == .global && Text.sameName v.name n && v.origin.isProtected

/-- A trend has a name. -/
def namesTrend (c : Controller) (n : String) : Bool :=
  c.image.trends.any fun t => Text.sameName t.name n

/-- A subroutine has a name. -/
def namesSubroutine (c : Controller) (n : String) : Bool :=
  c.image.programs.any fun p => Text.sameName p.name n && p.kind == .subroutine

/-- A model that compiles: no declaration was refused, every source is accepted by the parser, no
    line assigns a global that must not be assigned or a trend, and all that is run is a
    subroutine. -/
structure Valid (c : Controller) : Prop where
  declared : c.problems = []
  parses : ∀ p ∈ c.image.programs, ∃ lines, parseCode p.source = .ok lines
  readOnly : ∀ p ∈ c.image.programs, ∀ target value, p.States (.set target value) →
    c.namesReadOnly target = false
  trend : ∀ p ∈ c.image.programs, ∀ target value, p.States (.set target value) →
    c.namesTrend target = true → c.namesGlobal target = true
  callee : ∀ p ∈ c.image.programs, ∀ name, p.States (.run name) → c.namesSubroutine name = true

/-- What is wrong with a line of a program. -/
def flaw? (c : Controller) (program : String) (line : Nat) :
    Instruction String Expr String → Option ModelProblem
  | .set target _ =>
    if c.namesReadOnly target then some (.readOnlyAssignment program target line)
    else if c.namesTrend target && !c.namesGlobal target then
      some (.trendAssignment program target line)
    else none
  | .run name =>
    if c.namesSubroutine name then none else some (.unknownSubroutine program name line)
  | _ => none

/-- What is wrong with a program: that its source is refused by the parser, or else what is wrong
    with its lines. -/
def flaws (c : Controller) (p : Program) : List ModelProblem :=
  match parseCode p.source with
  | .error e => [.parse p.name e]
  | .ok lines =>
    lines.toList.filterMap fun line => c.flaw? p.name line.location.line line.instruction

/-- Nothing is wrong with a line that assigns what may be assigned and runs a subroutine. -/
theorem flaw?_eq_none_iff {program : String} {line : Nat}
    {instruction : Instruction String Expr String} :
    c.flaw? program line instruction = none ↔
      (∀ target value, instruction = .set target value →
          c.namesReadOnly target = false
            ∧ (c.namesTrend target = true → c.namesGlobal target = true))
        ∧ ∀ name, instruction = .run name → c.namesSubroutine name = true := by
  cases instruction with
  | set target value =>
    unfold flaw?
    cases hreadOnly : c.namesReadOnly target <;> cases htrend : c.namesTrend target <;>
      cases hglobal : c.namesGlobal target <;> simp [hreadOnly, htrend, hglobal]
  | run name =>
    unfold flaw?
    cases hcallee : c.namesSubroutine name <;> simp [hcallee]
  | _ => simp [flaw?]

/-- Nothing is wrong with a program whose source is parsed and whose lines are in order. -/
theorem flaws_eq_nil_iff {p : Program} :
    c.flaws p = [] ↔ (∃ lines, parseCode p.source = .ok lines)
      ∧ (∀ target value, p.States (.set target value) →
          c.namesReadOnly target = false
            ∧ (c.namesTrend target = true → c.namesGlobal target = true))
      ∧ ∀ name, p.States (.run name) → c.namesSubroutine name = true := by
  unfold flaws Program.States
  cases hparse : parseCode p.source with
  | error e => simp
  | ok lines =>
    dsimp only
    rw [List.filterMap_eq_nil_iff]
    constructor
    · intro hnone
      have hline : ∀ line ∈ lines, c.flaw? p.name line.location.line line.instruction = none :=
        fun line hmem => hnone line (Array.mem_toList_iff.2 hmem)
      refine ⟨⟨lines, rfl⟩, ?_, ?_⟩
      · rintro target value ⟨lines', heq, line, hmem, hset⟩
        cases heq
        exact (flaw?_eq_none_iff.1 (hline line hmem)).1 target value hset
      · rintro name ⟨lines', heq, line, hmem, hrun⟩
        cases heq
        exact (flaw?_eq_none_iff.1 (hline line hmem)).2 name hrun
    · rintro ⟨-, hset, hrun⟩ line hmem
      have hline : line ∈ lines := Array.mem_toList_iff.1 hmem
      refine flaw?_eq_none_iff.2 ⟨fun target value heq => ?_, fun name heq => ?_⟩
      · exact hset target value ⟨lines, rfl, line, hline, heq⟩
      · exact hrun name ⟨lines, rfl, line, hline, heq⟩

/-- A model is valid if nothing is wrong with it. -/
theorem valid_iff : c.Valid ↔ c.problems ++ c.image.programs.toList.flatMap c.flaws = [] := by
  rw [List.append_eq_nil_iff, List.flatMap_eq_nil_iff]
  constructor
  · intro h
    refine ⟨h.declared, fun p hp => flaws_eq_nil_iff.2 ?_⟩
    have hmem : p ∈ c.image.programs := Array.mem_toList_iff.1 hp
    exact ⟨h.parses p hmem, fun target value hset =>
      ⟨h.readOnly p hmem target value hset, h.trend p hmem target value hset⟩, h.callee p hmem⟩
  · rintro ⟨hdeclared, hflaws⟩
    have hprogram := fun p hp => flaws_eq_nil_iff.1 (hflaws p (Array.mem_toList_iff.2 hp))
    exact ⟨hdeclared, fun p hp => (hprogram p hp).1,
      fun p hp target value hset => ((hprogram p hp).2.1 target value hset).1,
      fun p hp target value hset => ((hprogram p hp).2.1 target value hset).2,
      fun p hp => (hprogram p hp).2.2⟩

/-! ## What compiling finds -/

theorem namesGlobal_eq (c : Controller) (n : String) :
    c.namesGlobal n = (c.machine.store.global? n).isSome := by
  rw [Store.global?, Store.find?_eq]
  exact Array.findIdx?_isSome.symm

theorem namesTrend_eq (c : Controller) (n : String) :
    c.namesTrend n = (trendNamed? c.image.trends n).isSome :=
  Array.findIdx?_isSome.symm

/-- Without a global there is none that must not be assigned. -/
theorem namesReadOnly_of_none {n : String} (h : c.machine.store.global? n = none) :
    c.namesReadOnly n = false := by
  refine Array.any_eq_false'.2 fun v hv => ?_
  rw [Store.global?, Store.find?_eq] at h
  have hother := Array.findIdx?_eq_none_iff.1 h v hv
  simp [hother]

namespace IsBare

/-- The global that a name finds is the one that decides whether the name may be assigned. -/
theorem namesReadOnly_eq (h : IsBare c) {n : String} {id : VariableId}
    (hid : c.machine.store.global? n = some id) :
    c.namesReadOnly n = c.machine.store.isProtected id := by
  obtain ⟨v, hv, hscope, hname⟩ := Store.get?_of_find? hid
  have hprotected : c.machine.store.isProtected id = v.origin.isProtected := by
    rw [Store.isProtected_eq, Store.origin?, hv]
    rfl
  rw [hprotected, Bool.eq_iff_iff, namesReadOnly, Array.any_eq_true']
  constructor
  · rintro ⟨x, hx, hmatch⟩
    obtain ⟨⟨hglobal, hsame⟩, horigin⟩ : (x.scope = .global ∧ Text.sameName x.name n = true)
        ∧ x.origin.isProtected = true := by simpa using hmatch
    obtain ⟨i, hi⟩ := Array.mem_iff_getElem?.1 hx
    -- the other one would be found as well
    have hfound := h.store.find?_of_get? hi hsame
    rw [hglobal] at hfound
    cases hid.symm.trans hfound
    cases hv.symm.trans hi
    exact horigin
  · intro horigin
    exact ⟨v, Array.mem_of_getElem? hv, by simp [hscope, hname, horigin]⟩

theorem namesSubroutine_eq (h : IsBare c) (n : String) :
    c.namesSubroutine n = (subroutineNamed? c.image.programs n).isSome := by
  rw [Bool.eq_iff_iff, namesSubroutine, Array.any_eq_true', Option.isSome_iff_exists]
  constructor
  · rintro ⟨p, hp, hmatch⟩
    obtain ⟨hsame, hkind⟩ : Text.sameName p.name n = true ∧ p.kind = .subroutine := by
      simpa using hmatch
    obtain ⟨id, hid⟩ := Array.mem_iff_getElem?.1 hp
    have hfound := h.image id p hid
    rw [Image.findProgram?_eq, programNamed?_congr _ hsame] at hfound
    refine ⟨id, Option.filter_eq_some_iff.2 ⟨hfound, ?_⟩⟩
    rw [hid, Option.map_some, hkind]
    rfl
  · rintro ⟨id, hid⟩
    obtain ⟨q, hq, hkind, hsame⟩ := exists_of_subroutineNamed? hid
    exact ⟨q, Array.mem_of_getElem? hq, by simp [hsame, hkind]⟩

/-- A local that compiling adds may be assigned. -/
theorem isProtected_local (h : IsBare c) {program : ProgramId} {n : String} {id : VariableId}
    (hid : c.compile.machine.store.find? (.local_ program) n = some id) :
    c.compile.machine.store.isProtected id = false := by
  obtain ⟨v, hv, hscope, -⟩ := Store.get?_of_find? hid
  rw [Store.isProtected_eq, Store.origin?, hv]
  rcases c.compile_covered.fresh id v hv with hold | ⟨horigin, -⟩
  · rw [h.global id v hold] at hscope
    cases hscope
  · rw [Option.map_some, horigin]
    rfl

/-- What is wrong with an assignment does not depend on locals. -/
theorem assignmentProblem?_eq (h : IsBare c) (program : ProgramId) (title target : String)
    (value : Expr) (line : Nat) :
    (c.compile.names program).assignmentProblem? title target line
      = c.flaw? title line (.set target value) := by
  rw [Naming.assignmentProblem?, flaw?]
  -- all locals are new, so having one tells what the name stood for before
  by_cases hlocal : c.compile.HasLocal program target
  · -- a name that got a local is not that of a global or trend
    obtain ⟨hglobal, htrend⟩ :=
      isFree_compile_iff.1 (isFree_compile hlocal (h.hasLocal program target))
    obtain ⟨id, hid⟩ := Option.ne_none_iff_exists'.1 hlocal
    rw [resolve?_of_local hid, namesReadOnly_of_none hglobal, namesTrend_eq, htrend]
    dsimp only
    rw [names_compile, h.isProtected_local hid]
    rfl
  · rw [resolve?_of_not_local hlocal, global?_compile, trends_compile]
    cases hglobal : c.machine.store.global? target with
    | some id =>
      obtain ⟨v, hv, -⟩ := Store.get?_of_find? hglobal
      have hprotected := c.compile_covered.kept.isProtected_eq (Store.lt_size_of_get? hv)
      rw [h.namesReadOnly_eq hglobal, namesGlobal_eq, hglobal]
      dsimp only
      rw [names_compile, hprotected]
      simp
    | none =>
      rw [namesReadOnly_of_none hglobal, namesTrend_eq, namesGlobal_eq, hglobal]
      cases trendNamed? c.image.trends target <;> rfl

theorem problem?_eq (h : IsBare c) (program : ProgramId) (title : String) (line : Nat)
    (instruction : Instruction String Expr String) :
    Site.problem? ⟨c.image.trendCatalog, c.image.programCatalog, program, title⟩
        (c.compile.names program) line instruction
      = c.flaw? title line instruction := by
  cases instruction with
  | set target value => exact h.assignmentProblem?_eq program title target value line
  | run name =>
    rw [Site.problem?, Site.lowerCallee_eq_match, flaw?, h.namesSubroutine_eq]
    cases subroutineNamed? c.image.programs name <;> rfl
  | _ => rfl

theorem problems_eq (h : IsBare c) (program : ProgramId) (p : Program) :
    Site.problems ⟨c.image.trendCatalog, c.image.programCatalog, program, p.name⟩
        (c.compile.names program) p.source
      = c.flaws p := by
  unfold Site.problems flaws
  cases parseCode p.source with
  | error e => rfl
  | ok lines =>
    exact List.filterMap_congr fun line _ => h.problem?_eq program p.name _ line.instruction

end IsBare

/-- The problems of programs, if those of one do not depend on its position. -/
theorem problemsIn_eq_flatMap {trends : Catalog Trend.foldedName}
    {all : Catalog Program.foldedName} {store : Store} {f : Program → List ModelProblem}
    (hf : ∀ id p,
      Site.problems ⟨trends, all, id, p.name⟩ ⟨store, trends.entries, id⟩ p.source = f p)
    (first : ProgramId) (list : List Program) :
    problemsIn trends all store first list = list.flatMap f := by
  induction list generalizing first with
  | nil => rfl
  | cons p rest ih => rw [problemsIn, hf, ih, List.flatMap_cons]

/-- Compiling reports what is wrong with the model. -/
theorem Drafted.problems_compile (h : Drafted c) :
    c.compile.problems = c.problems ++ c.image.programs.toList.flatMap c.flaws := by
  have hkept : c.problems.filter (!·.isFoundByCompiling) = c.problems :=
    List.filter_eq_self.2 fun problem hproblem => by rw [h.problems problem hproblem]; rfl
  have hprogram : ∀ id p, Site.problems ⟨c.image.trendCatalog, c.image.programCatalog, id, p.name⟩
      ⟨c.compile.machine.store, c.image.trends, id⟩ p.source = c.flaws p := by
    intro id p
    rw [← names_compile]
    exact h.isBare.problems_eq id p
  rw [Controller.problems_compile, hkept, found_eq, problemsIn_eq_flatMap hprogram]

/-- Exactly the valid models compile.

    Let a controller be set up and not compiled yet.  Compiling it succeeds if and only if no
    declaration was refused, every source is accepted by the parser, no line assigns a global that
    must not be assigned or a trend that no global shares its name with, and every line that runs
    something names a subroutine.  Otherwise the problems of refused declarations are reported, and
    after them those of the programs in the order in which these were added: for a source that the
    parser refuses one problem, for any other source one for each line that is wrong, in the order
    of the lines. -/
theorem Drafted.compile_accepts_iff_valid (h : Drafted c) :
    (c.compile.verdict = .ok () ↔ c.Valid)
      ∧ (¬ c.Valid → c.compile.verdict
          = .error (c.problems ++ c.image.programs.toList.flatMap c.flaws)) := by
  -- both sides are about the same list, which is empty or not
  rw [verdict_compile, h.problems_compile, valid_iff]
  constructor
  · constructor
    · intro hok
      by_contra hflaws
      rw [if_neg hflaws] at hok
      cases hok
    · exact fun hnone => if_pos hnone
  · exact fun hflaws => if_neg hflaws

/-- A global that is declared twice, a program with lines that are wrong among others, and one that
    cannot be parsed. -/
def flawedDraft : List SetupStep :=
  [.declare (.global ⟨"demand", .user, none⟩), .declare (.global ⟨"Demand", .user, none⟩),
    .declare (.trend ⟨"recent", "demand", 4⟩),
    .declare (.program ⟨"main", "SET x = recent\nSET hour = x\nSET Recent = x\nRUN main\nRUN Sub"⟩),
    .declare (.program ⟨"broken", "SET hour = 1\nENDIF"⟩),
    .declare (.subroutine ⟨"sub", "SET x = 1"⟩)]

/-- A trend with the name of a global, which is assigned. -/
def mendedDraft : List SetupStep :=
  [.declare (.global ⟨"demand", .user, none⟩), .declare (.trend ⟨"Demand", "demand", 4⟩),
    .declare (.program ⟨"main", "SET DEMAND = x\nRUN Sub"⟩),
    .declare (.subroutine ⟨"sub", "SET x = hour"⟩)]

theorem Drafted.compile_accepts_iff_valid_drafts :
    (∃ c, (Controller.ofSettings .default .zero).performAll? flawedDraft = some c
        ∧ Drafted c ∧ ¬ c.Valid
        ∧ c.compile.verdict = .error [.duplicateName .variableNames "Demand",
            .readOnlyAssignment "main" "hour" 2, .trendAssignment "main" "Recent" 3,
            .unknownSubroutine "main" "main" 4,
            .parse "broken" ⟨.unopened .branch, ⟨2, 1⟩⟩])
      ∧ ∃ c, (Controller.ofSettings .default .zero).performAll? mendedDraft = some c
        ∧ Drafted c ∧ c.Valid ∧ c.compile.verdict = .ok () := by
  have hflawed : ((Controller.ofSettings .default .zero).performAll? flawedDraft).map (fun c =>
      c.problems ++ c.image.programs.toList.flatMap c.flaws)
        = some [.duplicateName .variableNames "Demand", .readOnlyAssignment "main" "hour" 2,
            .trendAssignment "main" "Recent" 3, .unknownSubroutine "main" "main" 4,
            .parse "broken" ⟨.unopened .branch, ⟨2, 1⟩⟩] := by
    decide +kernel
  have hmended : ((Controller.ofSettings .default .zero).performAll? mendedDraft).map (fun c =>
      c.problems ++ c.image.programs.toList.flatMap c.flaws) = some [] := by
    decide +kernel
  obtain ⟨c, hc, hflaws⟩ := Option.map_eq_some_iff.1 hflawed
  obtain ⟨c', hc', hnone⟩ := Option.map_eq_some_iff.1 hmended
  have hdrafted := (Drafted.ofSettings .default .zero).performAll? (by decide +kernel) hc
  have hdrafted' := (Drafted.ofSettings .default .zero).performAll? (by decide +kernel) hc'
  have hinvalid : ¬ c.Valid := by
    rw [valid_iff, hflaws]
    exact List.cons_ne_nil _ _
  have hvalid : c'.Valid := valid_iff.2 hnone
  refine ⟨⟨c, hc, hdrafted, hinvalid, ?_⟩, c', hc', hdrafted', hvalid, ?_⟩
  · rw [hdrafted.compile_accepts_iff_valid.2 hinvalid, hflaws]
  · exact hdrafted'.compile_accepts_iff_valid.1.2 hvalid

end Controller

end Erl
