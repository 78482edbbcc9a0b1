/-
  Erl.Proofs.Controller.Settled

  What names stand for after compiling.

  Compiling settles the names of a program: every local is there for a name that the source
  reaches, every name that the source reaches stands for something, and no local has the name of a
  global or trend, provided that none had before.  Where the names of a program are settled, the
  globals, the trends and the source decide what each name stands for.  So two controllers with the
  same declarations agree on it after compiling, whatever locals there were before.
-/

import Erl.Proofs.Controller.Alike

namespace Erl.Controller

/-! ## Names without positions -/

/-- What a name stands for, wherever that is kept. -/
inductive Standing where
  /-- A local of the program. -/
  | own
  | global (v : Variable)
  | trend (id : TrendId)
  deriving Repr, DecidableEq

/-- What a name stands for in a program, if anything. -/
def standsFor? (c : Controller) (program : ProgramId) (name : String) : Option Standing :=
  match (c.names program).resolve? name with
  | some (.variableAt id) =>
    (c.machine.store.get? id).map fun v => if v.scope = .global then .global v else .own
  | some (.trendAt id) => some (.trend id)
  | none => none

/-- A program has a local with a name. -/
def HasLocal (c : Controller) (program : ProgramId) (n : String) : Prop :=
  c.machine.store.find? (.local_ program) n ≠ none

/-- No global and no trend has a name. -/
def IsFree (c : Controller) (n : String) : Prop :=
  c.machine.store.global? n = none ∧ trendNamed? c.image.trends n = none

instance (c : Controller) (n : String) : Decidable (c.IsFree n) :=
  inferInstanceAs (Decidable (_ ∧ _))

/-- No local of a program has the name of a global or trend. -/
def Untaken (c : Controller) (program : ProgramId) : Prop :=
  ∀ v ∈ c.machine.store.entries, v.scope = .local_ program → c.IsFree v.name

section Names

variable {c : Controller} {program : ProgramId} {n n' : String}

theorem isFree_congr (h : Text.sameName n n' = true) : c.IsFree n ↔ c.IsFree n' := by
  unfold IsFree Store.global?
  rw [Store.find?_congr _ _ h, trendNamed?_congr _ h]

theorem untaken_iff : c.Untaken program ↔ ∀ n, c.HasLocal program n → c.IsFree n := by
  constructor
  · intro h n hlocal
    obtain ⟨i, hi⟩ := Option.ne_none_iff_exists'.1 hlocal
    obtain ⟨v, hv, hscope, hname⟩ := Store.get?_of_find? hi
    exact (isFree_congr hname).1 (h v (Array.mem_of_getElem? hv) hscope)
  · intro h v hv hscope
    obtain ⟨i, hi⟩ := Array.mem_iff_getElem?.1 hv
    have hlocal := Store.find?_ne_none_of_get? hi (Text.sameName_self v.name)
    rw [hscope] at hlocal
    exact h v.name hlocal

theorem resolve?_of_not_local (h : ¬ c.HasLocal program n) :
    (c.names program).resolve? n = match c.machine.store.global? n with
      | some id => some (.variableAt id)
      | none => (trendNamed? c.image.trends n).map .trendAt := by
  unfold Naming.resolve? names
  dsimp only
  rw [not_not.1 h]
  rfl

theorem resolve?_of_local {i : VariableId}
    (h : c.machine.store.find? (.local_ program) n = some i) :
    (c.names program).resolve? n = some (.variableAt i) := by
  unfold Naming.resolve? names
  dsimp only
  rw [h]

/-- A name that nobody else has stands for a local, or for nothing. -/
theorem hasLocal_of_isFree (hknown : (c.names program).resolve? n ≠ none) (hfree : c.IsFree n) :
    c.HasLocal program n := by
  by_contra hlocal
  rw [resolve?_of_not_local hlocal, hfree.1, hfree.2] at hknown
  exact hknown rfl

theorem standsFor?_of_local (h : c.HasLocal program n) : c.standsFor? program n = some .own := by
  obtain ⟨i, hi⟩ := Option.ne_none_iff_exists'.1 h
  obtain ⟨v, hv, hscope, -⟩ := Store.get?_of_find? hi
  rw [standsFor?, resolve?_of_local hi]
  dsimp only
  rw [hv, Option.map_some, hscope, if_neg (by simp)]

theorem hasLocal_of_standsFor? (h : c.standsFor? program n = some .own) :
    c.HasLocal program n := by
  by_contra hlocal
  rw [standsFor?, resolve?_of_not_local hlocal] at h
  cases hglobal : c.machine.store.global? n with
  | some i =>
    obtain ⟨v, hv, hscope, -⟩ := Store.get?_of_find? hglobal
    rw [hglobal] at h
    dsimp only at h
    rw [hv, Option.map_some, if_pos hscope] at h
    cases h
  | none =>
    rw [hglobal] at h
    cases htrend : trendNamed? c.image.trends n <;> simp [htrend] at h

theorem standsFor?_of_not_local (h : ¬ c.HasLocal program n) :
    c.standsFor? program n = match c.machine.store.named? .global n with
      | some v => some (.global v)
      | none => (trendNamed? c.image.trends n).map .trend := by
  rw [standsFor?, resolve?_of_not_local h]
  cases hglobal : c.machine.store.global? n with
  | some i =>
    obtain ⟨v, hv, hscope, -⟩ := Store.get?_of_find? hglobal
    rw [Store.named?_of_find? hglobal, hv]
    dsimp only
    rw [hv, Option.map_some, if_pos hscope]
  | none =>
    rw [Store.named?_eq_none_iff.2 hglobal]
    cases trendNamed? c.image.trends n <;> rfl

end Names

/-! ## Settled names -/

/-- The names of a program are settled: its locals are those that the source calls for. -/
structure Settled (c : Controller) (program : ProgramId) : Prop where
  explained : ∀ n, c.HasLocal program n →
    ∃ p, c.image.programs[program]? = some p ∧ (c.names program).Reaches p.source n
  known : ∀ p n, c.image.programs[program]? = some p → (c.names program).Reaches p.source n →
    (c.names program).resolve? n ≠ none
  clear : ∀ n, c.HasLocal program n → c.IsFree n

theorem trendCatalog_compile (c : Controller) :
    c.compile.image.trendCatalog = c.image.trendCatalog :=
  rfl

theorem trends_compile (c : Controller) : c.compile.image.trends = c.image.trends :=
  rfl

/-- Compiling adds no global. -/
theorem global?_compile (c : Controller) (n : String) :
    c.compile.machine.store.global? n = c.machine.store.global? n := by
  have hcovered := c.compile_covered
  cases hglobal : c.machine.store.global? n with
  | some id => exact Store.find?_of_grows hcovered.kept.store hglobal
  | none =>
    by_contra hadded
    rcases hcovered.added .global n hadded with hbefore | ⟨k, p, -, hscope, -⟩
    · exact hbefore hglobal
    · cases hscope

theorem isFree_compile_iff {c : Controller} {n : String} : c.compile.IsFree n ↔ c.IsFree n := by
  unfold IsFree
  rw [global?_compile, trends_compile]

/-- Locals stay. -/
theorem HasLocal.compile {c : Controller} {program : ProgramId} {n : String}
    (h : c.HasLocal program n) : c.compile.HasLocal program n := by
  obtain ⟨i, hi⟩ := Option.ne_none_iff_exists'.1 h
  have hfound := Store.find?_of_grows c.compile_covered.kept.store hi
  exact fun hnone => Option.some_ne_none i (hfound.symm.trans hnone)

/-- Compiling adds no local with the name of a global or trend. -/
theorem isFree_compile {c : Controller} {program : ProgramId} {n : String}
    (hnew : c.compile.HasLocal program n) (hold : ¬ c.HasLocal program n) :
    c.compile.IsFree n := by
  have hcovered := c.compile_covered
  obtain ⟨i, hi⟩ := Option.ne_none_iff_exists'.1 hnew
  -- what the name stood for before it would stand for now
  have hnone : (c.names program).resolve? n = none := by
    by_contra hknown
    have hsame := hcovered.kept.resolve?_eq hknown
    have hlocal : (c.names program).resolve? n = some (.variableAt i) :=
      hsame.symm.trans (resolve?_of_local hi)
    rw [resolve?_of_not_local hold] at hlocal
    cases hglobal : c.machine.store.global? n with
    | some g =>
      rw [hglobal] at hlocal
      obtain rfl : g = i := by simpa using hlocal
      have hfound := Store.find?_of_grows hcovered.kept.store hglobal
      cases (Store.find?_unique hfound hi).1
    | none =>
      rw [hglobal] at hlocal
      obtain ⟨_, -, htrend⟩ := Option.map_eq_some_iff.1 hlocal
      cases htrend
  obtain ⟨hlookup, htrend⟩ := Naming.resolve?_eq_none_iff.1 hnone
  exact isFree_compile_iff.2 ⟨(Option.or_eq_none_iff.1 hlookup).2, htrend⟩

theorem names_compile (c : Controller) (program : ProgramId) :
    c.compile.names program = ⟨c.compile.machine.store, c.image.trends, program⟩ :=
  rfl

/-- Compiling settles the names of a program, unless one of its locals has the name of something
    else already. -/
theorem compile_settled {c : Controller} {program : ProgramId} (hexplained : c.Explained)
    (huntaken : c.Untaken program) : c.compile.Settled program := by
  have hcovered := c.compile_covered
  refine ⟨hexplained.compile program, fun p n hp hreach => ?_, fun n hlocal => ?_⟩
  · have hsame := c.compile_source? program
    rw [hp] at hsame
    obtain ⟨q, hq, hsource⟩ := Option.map_eq_some_iff.1 hsame.symm
    have hknown := hcovered.known program q n (Array.getElem?_toList ▸ hq)
    rw [Nat.zero_add, hsource] at hknown
    exact hknown hreach
  · by_cases hold : c.HasLocal program n
    · exact isFree_compile_iff.2 (untaken_iff.1 huntaken n hold)
    · exact isFree_compile hlocal hold

/-! ## Agreement -/

section Agreement

variable {x y b : Controller} (hx : Alike x b) (hy : Alike y b) {program : ProgramId}
include hx hy

theorem named?_eq (n : String) :
    x.machine.store.named? .global n = y.machine.store.named? .global n :=
  (hx.store.global n).trans (hy.store.global n).symm

theorem trendNamed?_eq (n : String) :
    trendNamed? x.image.trends n = trendNamed? y.image.trends n :=
  (hx.trendNamed? n).trans (hy.trendNamed? n).symm

theorem global?_eq_none_iff (n : String) :
    x.machine.store.global? n = none ↔ y.machine.store.global? n = none := by
  rw [Store.global?, Store.global?, ← Store.named?_eq_none_iff, ← Store.named?_eq_none_iff,
    named?_eq hx hy]

theorem isFree_iff (n : String) : x.IsFree n ↔ y.IsFree n := by
  unfold IsFree
  rw [global?_eq_none_iff hx hy, trendNamed?_eq hx hy]

/-- Globals with the same name may be assigned in both, or in neither. -/
theorem global_pair {n : String} {i : VariableId} (hi : x.machine.store.global? n = some i) :
    ∃ j, y.machine.store.global? n = some j
      ∧ x.machine.store.get? i = y.machine.store.get? j := by
  have hnamed := named?_eq hx hy n
  have hsome : y.machine.store.global? n ≠ none := by
    intro hnone
    rw [(global?_eq_none_iff hx hy n).2 hnone] at hi
    cases hi
  obtain ⟨j, hj⟩ := Option.ne_none_iff_exists'.1 hsome
  rw [Store.named?_of_find? hi, Store.named?_of_find? hj] at hnamed
  exact ⟨j, hj, hnamed⟩

omit hx in
/-- A local may be assigned. -/
theorem isProtected_local {n : String} {j : VariableId}
    (hj : y.machine.store.find? (.local_ program) n = some j) :
    y.machine.store.isProtected j = false := by
  obtain ⟨v, hv, -⟩ := Store.get?_of_find? hj
  have hfresh := hy.store.fresh ((Store.named?_of_find? hj).trans hv)
  rw [Store.isProtected_eq, Store.origin?, hv, Option.map_some, hfresh.1]
  rfl

/-- A name that may be assigned in one of two controllers may be assigned in the other. -/
theorem Settled.assignable (sx : x.Settled program) (sy : y.Settled program) {s : String}
    (hknown : (y.names program).resolve? s ≠ none) (h : (x.names program).Assignable s) :
    (y.names program).Assignable s := by
  obtain ⟨i, hi, hfree⟩ := h
  by_cases hlocal : x.HasLocal program s
  · -- nothing but a local can have the name
    have hlocal' := hasLocal_of_isFree hknown ((isFree_iff hx hy s).1 (sx.clear s hlocal))
    obtain ⟨j, hj⟩ := Option.ne_none_iff_exists'.1 hlocal'
    exact ⟨j, resolve?_of_local hj, isProtected_local hy hj⟩
  · rw [resolve?_of_not_local hlocal] at hi
    cases hglobal : x.machine.store.global? s with
    | none =>
      rw [hglobal] at hi
      obtain ⟨_, -, htrend⟩ := Option.map_eq_some_iff.1 hi
      cases htrend
    | some g =>
      rw [hglobal] at hi
      obtain rfl : g = i := by simpa using hi
      obtain ⟨j, hj, hsame⟩ := global_pair hx hy hglobal
      have hlocal' : ¬ y.HasLocal program s :=
        fun hlocal' => Option.some_ne_none j (hj.symm.trans (sy.clear s hlocal').1)
      refine ⟨j, ?_, ?_⟩
      · rw [resolve?_of_not_local hlocal', hj]
      · show y.machine.store.isProtected j = false
        rw [Store.isProtected_eq, Store.origin?, ← hsame, ← Store.origin?,
          ← Store.isProtected_eq]
        exact hfree

theorem program_pair {p : Program} (hp : x.image.programs[program]? = some p) :
    ∃ q, y.image.programs[program]? = some q ∧ p.uncompiled = q.uncompiled := by
  have hsame := (hx.program? program).trans (hy.program? program).symm
  rw [hp] at hsame
  obtain ⟨q, hq, heq⟩ := Option.map_eq_some_iff.1 hsame.symm
  exact ⟨q, hq, heq.symm⟩

/-- A local of one of two controllers is a local of the other: the source calls for it there as
    well. -/
theorem Settled.hasLocal (sx : x.Settled program) (sy : y.Settled program) {n : String}
    (h : x.HasLocal program n) : y.HasLocal program n := by
  obtain ⟨p, hp, lines, hparse, line, hline, hreach⟩ := sx.explained n h
  obtain ⟨q, hq, heq⟩ := program_pair hx hy hp
  have hsource : p.uncompiled.source = q.uncompiled.source := by rw [heq]
  change p.source = q.source at hsource
  rw [hsource] at hparse
  have hknown : ∀ n', line.instruction.Reaches (y.names program) n' →
      (y.names program).resolve? n' ≠ none :=
    fun n' hn' => sy.known q n' hq ⟨lines, hparse, line, hline, hn'⟩
  -- only the value of an assignment depends on names, by way of its target
  have hreach' : line.instruction.Reaches (y.names program) n := by
    generalize line.instruction = i at hreach hknown
    cases hreach with
    | target hsame => exact .target hsame
    | value hassignable hnamed =>
      refine .value (sx.assignable hx hy sy (hknown _ ?_) hassignable) hnamed
      exact .target (Text.sameName_self _)
    | if_ hnamed => exact .if_ hnamed
    | elseIf hnamed => exact .elseIf hnamed
    | while_ hnamed => exact .while_ hnamed
  -- the name stands for something, which can be nothing but a local
  exact hasLocal_of_isFree (hknown n hreach') ((isFree_iff hx hy n).1 (sx.clear n h))

/-- Every name stands for the same in two controllers. -/
theorem Settled.standsFor?_eq (sx : x.Settled program) (sy : y.Settled program) (n : String) :
    x.standsFor? program n = y.standsFor? program n := by
  by_cases h : x.HasLocal program n
  · rw [standsFor?_of_local h, standsFor?_of_local (sx.hasLocal hx hy sy h)]
  · have h' := fun hlocal => h (sy.hasLocal hy hx sx hlocal)
    rw [standsFor?_of_not_local h, standsFor?_of_not_local h', named?_eq hx hy,
      trendNamed?_eq hx hy]

/-- Variables that are found by the same name were created for the same and hold the same. -/
theorem pair_same {i j : VariableId}
    (hij : (Store.pairing x.machine.store y.machine.store).rel i j) :
    ∃ v w, x.machine.store.get? i = some v ∧ y.machine.store.get? j = some w
      ∧ v.origin = w.origin ∧ v.value = w.value := by
  obtain ⟨scope, n, hi, hj⟩ := hij
  obtain ⟨v, hv, -⟩ := Store.get?_of_find? hi
  obtain ⟨w, hw, -⟩ := Store.get?_of_find? hj
  refine ⟨v, w, hv, hw, ?_⟩
  cases scope with
  | global =>
    -- globals of a name are the same variable
    obtain ⟨k, hk, hsame⟩ := global_pair hx hy hi
    obtain rfl := Option.some.inj (hk.symm.trans hj)
    obtain rfl := Option.some.inj (hv.symm.trans (hsame.trans hw))
    exact ⟨rfl, rfl⟩
  | local_ program =>
    -- locals hold nothing before the first run
    have hfresh := hx.store.fresh ((Store.named?_of_find? hi).trans hv)
    have hfresh' := hy.store.fresh ((Store.named?_of_find? hj).trans hw)
    exact ⟨hfresh.1.trans hfresh'.1.symm, hfresh.2.trans hfresh'.2.symm⟩

theorem pair_isProtected {i j : VariableId}
    (hij : (Store.pairing x.machine.store y.machine.store).rel i j) :
    x.machine.store.isProtected i = y.machine.store.isProtected j := by
  obtain ⟨v, w, hv, hw, horigin, -⟩ := pair_same hx hy hij
  rw [Store.isProtected_eq, Store.isProtected_eq, Store.origin?, Store.origin?, hv, hw]
  simp only [Option.map_some, horigin]

theorem agrees_of_alike :
    x.machine.Agrees (Store.pairing x.machine.store y.machine.store) y.machine := by
  refine ⟨⟨fun hij => ?_, fun hij => ?_, fun hij => ?_⟩, hx.generator.trans hy.generator.symm⟩
  · obtain ⟨v, w, hv, -⟩ := pair_same hx hy hij
    exact Store.lt_size_of_get? hv
  · obtain ⟨v, w, -, hw, -⟩ := pair_same hx hy hij
    exact Store.lt_size_of_get? hw
  · obtain ⟨v, w, hv, hw, -, hvalue⟩ := pair_same hx hy hij
    rw [Store.value_eq, Store.value_eq, hv, hw, Option.map_some, Option.map_some, hvalue]

/-- Programs cannot tell the names of two controllers apart. -/
theorem Settled.names_alike (sx : x.Settled program) (sy : y.Settled program) :
    (x.names program).Alike (Store.pairing x.machine.store y.machine.store) (y.names program) := by
  refine ⟨fun n => ?_, trendNamed?_eq hx hy⟩
  by_cases h : x.HasLocal program n
  · obtain ⟨i, hi⟩ := Option.ne_none_iff_exists'.1 h
    obtain ⟨j, hj⟩ := Option.ne_none_iff_exists'.1 (sx.hasLocal hx hy sy h)
    rw [resolve?_of_local hi, resolve?_of_local hj]
    exact .variableAt ⟨_, n, hi, hj⟩
  · have h' := fun hlocal => h (sy.hasLocal hy hx sx hlocal)
    rw [resolve?_of_not_local h, resolve?_of_not_local h', trendNamed?_eq hx hy]
    cases hi : x.machine.store.global? n with
    | some i =>
      obtain ⟨j, hj, -⟩ := global_pair hx hy hi
      rw [hj]
      exact .variableAt ⟨_, n, hi, hj⟩
    | none =>
      rw [(global?_eq_none_iff hx hy n).1 hi]
      cases trendNamed? y.image.trends n with
      | some id => exact .trendAt id
      | none => exact .nothing

/-- The same is wrong with a source in both. -/
theorem Settled.problems_eq (sx : x.Settled program) (sy : y.Settled program)
    {all all' : Catalog Program.foldedName}
    (hall : all.entries.map Program.uncompiled = all'.entries.map Program.uncompiled)
    (title source : String) :
    Site.problems ⟨x.image.trendCatalog, all, program, title⟩ (x.names program) source
      = Site.problems ⟨y.image.trendCatalog, all', program, title⟩ (y.names program) source := by
  have hassign : ∀ (s : String) (line : Nat), (x.names program).assignmentProblem? title s line
      = (y.names program).assignmentProblem? title s line := by
    intro s line
    have hname := (sx.names_alike hx hy sy).resolve? s
    unfold Naming.assignmentProblem?
    generalize (x.names program).resolve? s = r at hname
    generalize (y.names program).resolve? s = r' at hname
    cases hname with
    | variableAt hij =>
      have hprotected := pair_isProtected hx hy hij
      change (x.names program).store.isProtected _ = (y.names program).store.isProtected _
        at hprotected
      dsimp only
      rw [hprotected]
    | trendAt id => rfl
    | nothing => rfl
  have hcall : ∀ (s : String) (line : Nat),
      Site.lowerCallee ⟨x.image.trendCatalog, all, program, title⟩ s line
        = Site.lowerCallee ⟨y.image.trendCatalog, all', program, title⟩ s line := by
    intro s line
    have hcallee : subroutineNamed? all.entries s = subroutineNamed? all'.entries s := by
      rw [← subroutineNamed?_uncompiled, hall, subroutineNamed?_uncompiled]
    rw [Site.lowerCallee_eq_match, Site.lowerCallee_eq_match]
    dsimp only [Site.programs]
    rw [hcallee]
  unfold Site.problems
  cases parseCode source with
  | error e => rfl
  | ok lines =>
    refine List.filterMap_congr fun line _ => ?_
    cases line.instruction with
    | set target value => exact hassign target _
    | run name => exact congrArg problemOf? (hcall name _)
    | _ => rfl

end Agreement

/-- What is wrong with programs depends on what is wrong with each source. -/
theorem problemsIn_congr {trends trends' : Catalog Trend.foldedName}
    {all all' : Catalog Program.foldedName} {t t' : Store}
    (h : ∀ (program : ProgramId) (title source : String),
      Site.problems ⟨trends, all, program, title⟩ ⟨t, trends.entries, program⟩ source
        = Site.problems ⟨trends', all', program, title⟩ ⟨t', trends'.entries, program⟩ source)
    {list list' : List Program}
    (hmap : list.map Program.uncompiled = list'.map Program.uncompiled) (first : ProgramId) :
    problemsIn trends all t first list = problemsIn trends' all' t' first list' := by
  induction list generalizing list' first with
  | nil =>
    cases list' with
    | nil => rfl
    | cons q rest' => cases hmap
  | cons p rest ih =>
    cases list' with
    | nil => cases hmap
    | cons q rest' =>
      obtain ⟨hpq, hrest⟩ := List.cons.inj hmap
      obtain ⟨hname, hsource⟩ : p.name = q.name ∧ p.source = q.source := by
        simp only [Program.uncompiled, Program.mk.injEq] at hpq
        exact ⟨hpq.1, hpq.2.2.1⟩
      rw [problemsIn, problemsIn, ih hrest, hname, hsource, h]

/-! ## Compiling in between -/

section Between

variable {a b : Controller} (h : Alike a b)
include h

/-- Where there are no locals, compiling settles all names. -/
theorem Alike.settled_right (program : ProgramId) : b.compile.Settled program := by
  refine compile_settled (explained_of_bare h.store.bare) (untaken_iff.2 fun n hlocal => ?_)
  exact absurd (h.store.bare program n) hlocal

/-- The names of a program are those that it has without compiling in between, exactly if none of
    the locals that it was left has the name of a global or trend. -/
theorem Alike.standsFor?_eq_iff (program : ProgramId) :
    (∀ n, a.compile.standsFor? program n = b.compile.standsFor? program n)
      ↔ a.Untaken program := by
  constructor
  · intro hsame
    refine untaken_iff.2 fun n hlocal => ?_
    have hown := standsFor?_of_local hlocal.compile
    have hlocal' := hasLocal_of_standsFor? ((hsame n).symm.trans hown)
    -- without compiling in between the local is new
    have hfree := isFree_compile hlocal' fun hold => hold (h.store.bare program n)
    exact (isFree_iff h h.right n).2 (isFree_compile_iff.1 hfree)
  · intro huntaken
    have hleft := compile_settled h.explained huntaken
    exact hleft.standsFor?_eq h.compile h.right.compile (h.settled_right program)

/-- Compiling finds the same. -/
theorem Alike.found_eq (huntaken : ∀ program, a.Untaken program) : a.found = b.found := by
  have hmap := congrArg Array.toList h.programs
  rw [Array.toList_map, Array.toList_map] at hmap
  rw [Controller.found_eq, Controller.found_eq]
  refine problemsIn_congr (fun program title source => ?_) hmap 0
  have hleft := compile_settled h.explained (huntaken program)
  have hsame := hleft.problems_eq h.compile h.right.compile (h.settled_right program)
    h.programs title source
  rw [names_compile, names_compile, trendCatalog_compile, trendCatalog_compile] at hsame
  exact hsame

/-- The same problems are reported. -/
theorem Alike.problems_compile_eq (huntaken : ∀ program, a.Untaken program) :
    a.compile.problems = b.compile.problems := by
  rw [problems_compile, problems_compile, h.problems, h.found_eq huntaken]

end Between

end Erl.Controller
