/-
  Erl.Proofs.Store.Index

  Variables by scope and name.

  Variables are told apart by their scopes and by their names in upper case.  A declaration adds a
  variable only where there is none under its name, and assignments change neither scopes nor names.
  So two indexes, one of the globals by name and one of the locals by program and name, hold every
  variable once, and what a name denotes can be read off them.
-/

import Mathlib.Data.List.Basic
import Erl.Proofs.Index
import Erl.Proofs.Store

namespace Erl

namespace Variable

/-- What variables are told apart by. -/
def key (v : Variable) : Scope × String :=
  (v.scope, Text.fold v.name)

theorem globalKey?_eq_some_iff {v : Variable} {k : String} :
    v.globalKey? = some k ↔ v.key = (.global, k) := by
  unfold globalKey? key
  cases v.scope <;> simp

theorem localKey?_eq_some_iff {v : Variable} {k : ProgramId × String} :
    v.localKey? = some k ↔ v.key = (.local_ k.1, k.2) := by
  unfold localKey? key
  cases v.scope <;> simp [Prod.ext_iff]

end Variable

namespace Store

/-! ## Indexes -/

/-- No two variables of one scope have the same name. -/
def NamesDiffer (t : Store) : Prop :=
  KeysDiffer Variable.key t.entries

namespace NamesDiffer

variable {t : Store} (h : t.NamesDiffer)
include h

theorem globals_eq_some_iff (k : String) (id : VariableId) :
    t.globals.get? k = some id
      ↔ ∃ v, t.get? id = some v ∧ v.scope = .global ∧ Text.fold v.name = k := by
  rw [t.globals_inStep, KeysDiffer.get?_ofEntries_eq_some_iff h fun x y k hx hy => by
    rw [Variable.globalKey?_eq_some_iff.1 hx, Variable.globalKey?_eq_some_iff.1 hy]]
  simp only [Variable.globalKey?_eq_some_iff, Variable.key, Prod.mk.injEq]
  rfl

theorem locals_eq_some_iff (program : ProgramId) (k : String) (id : VariableId) :
    t.locals.get? (program, k) = some id
      ↔ ∃ v, t.get? id = some v ∧ v.scope = .local_ program ∧ Text.fold v.name = k := by
  rw [t.locals_inStep, KeysDiffer.get?_ofEntries_eq_some_iff h fun x y k hx hy => by
    rw [Variable.localKey?_eq_some_iff.1 hx, Variable.localKey?_eq_some_iff.1 hy]]
  simp only [Variable.localKey?_eq_some_iff, Variable.key, Prod.mk.injEq]
  rfl

theorem unique {id id' : VariableId} {v v' : Variable} (hv : t.get? id = some v)
    (hv' : t.get? id' = some v') (hscope : v.scope = v'.scope)
    (hname : Text.fold v.name = Text.fold v'.name) : id = id' :=
  h id id' v v' hv hv' (by rw [Variable.key, Variable.key, hscope, hname])

/-- A variable may be added under a name that finds nothing. -/
theorem add {x : Variable} (hnew : t.find? x.scope x.name = none) : (t.add x).NamesDiffer := by
  refine KeysDiffer.push h fun v hv hkey => ?_
  rw [find?_eq] at hnew
  have hnot := Array.findIdx?_eq_none_iff.1 hnew v hv
  simp only [Variable.key, Prod.mk.injEq] at hkey
  simp [hkey, Text.sameName] at hnot

/-- Values do not matter. -/
theorem of_lasts {t' : Store} (hlasts : t.Lasts t') (hsize : t'.size = t.size) :
    t'.NamesDiffer := by
  refine KeysDiffer.of_keys h fun i v hv => ?_
  obtain ⟨x, hx, value, rfl⟩ := hlasts.get?_of_size hsize hv
  exact ⟨x, hx, rfl⟩

end NamesDiffer

/-! ## Declarations and assignments -/

/-- A declaration or an assignment. -/
inductive Step where
  | declareGlobal (name : String) (origin : Origin)
  | declareLocal (program : ProgramId) (name : String)
  | assign (id : VariableId) (value : Value)
  deriving Repr, DecidableEq

/-- The table after a step. -/
def step (t : Store) : Step → Store
  | .declareGlobal name origin =>
    match t.addGlobal name origin with
    | .ok (_, grown) => grown
    | .error _ => t
  | .declareLocal program name => (t.ensureLocal program name).2
  | .assign id value => t.set id value

/-- The table after some steps. -/
def stepAll (t : Store) (steps : List Step) : Store :=
  steps.foldl step t

/-- The table of all variables that some steps declare. -/
def ofSteps (steps : List Step) : Store :=
  empty.stepAll steps

variable {t : Store}

/-- A step assigns, finds what it declares, or adds a variable where nothing is found. -/
theorem step_cases (t : Store) (s : Step) :
    (∃ id value, t.step s = t.set id value) ∨ t.step s = t
      ∨ ∃ name scope origin, t.find? scope name = none ∧ t.step s = t.push name scope origin := by
  cases s with
  | declareGlobal name origin =>
    simp only [step]
    cases hfound : t.global? name with
    | some id =>
      rw [addGlobal_of_some hfound]
      exact .inr (.inl rfl)
    | none =>
      rw [addGlobal_of_none hfound]
      exact .inr (.inr ⟨name, .global, origin, hfound, rfl⟩)
  | declareLocal program name =>
    simp only [step]
    cases hfound : t.find? (.local_ program) name with
    | some id =>
      rw [ensureLocal_of_some hfound]
      exact .inr (.inl rfl)
    | none =>
      rw [ensureLocal_of_none hfound]
      exact .inr (.inr ⟨name, .local_ program, .user, hfound, rfl⟩)
  | assign id value => exact .inl ⟨id, value, rfl⟩

theorem NamesDiffer.step (h : t.NamesDiffer) (s : Step) : (t.step s).NamesDiffer := by
  rcases t.step_cases s with ⟨id, x, heq⟩ | heq | ⟨name, scope, origin, hnew, heq⟩
  · rw [heq]
    exact h.of_lasts (.set t id x) (size_set t id x)
  · rw [heq]
    exact h
  · rw [heq]
    exact h.add hnew

/-- A step changes values at most, and may add a variable. -/
theorem Lasts.step (t : Store) (s : Step) : t.Lasts (t.step s) := by
  rcases t.step_cases s with ⟨id, x, heq⟩ | heq | ⟨name, scope, origin, -, heq⟩
  · rw [heq]
    exact .set t id x
  · rw [heq]
    exact .refl t
  · rw [heq]
    exact (Grows.add t _).lasts

theorem NamesDiffer.stepAll (h : t.NamesDiffer) (steps : List Step) :
    (t.stepAll steps).NamesDiffer := by
  induction steps generalizing t with
  | nil => exact h
  | cons s rest ih => exact ih (h.step s)

theorem namesDiffer_ofSteps (steps : List Step) : (ofSteps steps).NamesDiffer :=
  NamesDiffer.stepAll (t := empty) (KeysDiffer.empty Variable.key) steps

theorem exists_get?_iff (t : Store) (id : VariableId) : (∃ v, t.get? id = some v) ↔ id < t.size :=
  ⟨fun h => lt_size_of_get? h.choose_spec, fun h => ⟨_, Array.getElem?_eq_getElem h⟩⟩

/-- The table of variables, whatever was declared and assigned.  The index of the globals has each
    global under its name in upper case and nothing else, and that of the locals has each local
    under its program and its name; so a scope has a name once.  Positions are those below the size,
    and a variable keeps its position, name, scope and origin ever after.  A declaration of a name
    that is found answers with its position and changes nothing; any other adds a variable at the
    end and changes no other.  In a program a name denotes its local, or else the global.  An
    assignment changes the value of its variable and nothing else. -/
theorem indexes_agree_with_table (steps : List Step) (ht : ofSteps steps = t) :
    (∀ (k : String) (id : VariableId), t.globals.get? k = some id ↔
        ∃ v, t.get? id = some v ∧ v.scope = .global ∧ Text.fold v.name = k)
      ∧ (∀ (program : ProgramId) (k : String) (id : VariableId),
        t.locals.get? (program, k) = some id ↔
          ∃ v, t.get? id = some v ∧ v.scope = .local_ program ∧ Text.fold v.name = k)
      ∧ (∀ (id id' : VariableId) (v v' : Variable), t.get? id = some v → t.get? id' = some v' →
        v.scope = v'.scope → Text.fold v.name = Text.fold v'.name → id = id')
      ∧ (∀ id : VariableId, (∃ v, t.get? id = some v) ↔ id < t.size)
      ∧ (∀ (later : List Step) (id : VariableId) (v : Variable), t.get? id = some v →
        ∃ value, (t.stepAll later).get? id = some { v with value })
      ∧ (∀ (name : String) (origin : Origin) (id : VariableId),
        t.globals.get? (Text.fold name) = some id →
          t.addGlobal name origin = .error id ∧ t.step (.declareGlobal name origin) = t)
      ∧ (∀ (name : String) (origin : Origin), t.globals.get? (Text.fold name) = none →
        t.addGlobal name origin = .ok (t.size, t.step (.declareGlobal name origin))
          ∧ ∀ id : VariableId, (t.step (.declareGlobal name origin)).get? id
            = if id = t.size then some ⟨name, .global, origin, .null, none⟩ else t.get? id)
      ∧ (∀ (program : ProgramId) (name : String) (id : VariableId),
        t.locals.get? (program, Text.fold name) = some id → t.ensureLocal program name = (id, t))
      ∧ (∀ (program : ProgramId) (name : String), t.locals.get? (program, Text.fold name) = none →
        t.ensureLocal program name = (t.size, t.step (.declareLocal program name))
          ∧ ∀ id : VariableId, (t.step (.declareLocal program name)).get? id
            = if id = t.size then some ⟨name, .local_ program, .user, .null, none⟩
              else t.get? id)
      ∧ (∀ name : String, t.global? name = t.globals.get? (Text.fold name))
      ∧ (∀ (program : ProgramId) (name : String), t.lookup? program name
        = (t.locals.get? (program, Text.fold name)).or (t.globals.get? (Text.fold name)))
      ∧ ∀ (target id : VariableId) (value : Value), (t.set target value).get? id
        = if id = target then (t.get? id).map ({ · with value }) else t.get? id := by
  have hdiffer : t.NamesDiffer := ht ▸ namesDiffer_ofSteps steps
  refine ⟨hdiffer.globals_eq_some_iff, hdiffer.locals_eq_some_iff, fun _ _ _ _ => hdiffer.unique,
    t.exists_get?_iff, fun later => Lasts.foldl Lasts.step later t, fun name origin id hfound => ?_,
    fun name origin hnone => ?_, fun program name id => ensureLocal_of_some,
    fun program name hnone => ?_, fun _ => rfl, fun _ _ => rfl, fun target id value => ?_⟩
  · rw [step, addGlobal_of_some hfound]
    exact ⟨rfl, rfl⟩
  · rw [step, addGlobal_of_none hnone]
    exact ⟨rfl, get?_push t name .global origin⟩
  · rw [step, ensureLocal_of_none hnone]
    exact ⟨rfl, get?_push t name (.local_ program) .user⟩
  · by_cases hid : id = target
    · rw [if_pos hid, get?_set, hid]
      simp
    · rw [if_neg hid, get?_set_of_ne t (Ne.symm hid)]

/-- A global, a local of the same name in other letters, the global once more, and an assignment. -/
def shadowedGlobal : List Step :=
  [.declareGlobal "T_set" .user, .declareLocal 0 "t_SET", .declareGlobal "T_SET" .sensor,
    .assign 0 (.number 3.0)]

theorem indexes_agree_with_table_shadowedGlobal :
    (ofSteps shadowedGlobal).globals.get? "T_SET" = some 0
      ∧ (ofSteps shadowedGlobal).locals.get? (0, "T_SET") = some 1
      ∧ (ofSteps shadowedGlobal).size = 2
      ∧ (ofSteps shadowedGlobal).addGlobal "t_set" .actuator = .error 0
      ∧ (ofSteps shadowedGlobal).lookup? 0 "t_set" = some 1
      ∧ (ofSteps shadowedGlobal).lookup? 1 "t_set" = some 0
      ∧ (∃ grown, (ofSteps shadowedGlobal).ensureLocal 1 "x" = (2, grown))
      ∧ ∃ value, ((ofSteps shadowedGlobal).stepAll shadowedGlobal).get? 0
        = some ⟨"T_set", .global, .user, value, none⟩ := by
  have hfold : Text.fold "t_set" = "T_SET" := by decide +kernel
  have hfirst : (ofSteps shadowedGlobal).get? 0
      = some ⟨"T_set", .global, .user, .number 3.0, none⟩ := by
    decide +kernel
  have hsecond : (ofSteps shadowedGlobal).get? 1
      = some ⟨"t_SET", .local_ 0, .user, .null, none⟩ := by
    decide +kernel
  obtain ⟨hglobals, hlocals, -, hdense, hlater, hold, -, -, hnewLocal, -, hlookup, -⟩ :=
    indexes_agree_with_table shadowedGlobal rfl
  have hsize : (ofSteps shadowedGlobal).size = 2 := by decide +kernel
  have hglobal : (ofSteps shadowedGlobal).globals.get? (Text.fold "t_set") = some 0 :=
    (hglobals _ _).2 ⟨_, hfirst, rfl, by decide +kernel⟩
  have hlocal : (ofSteps shadowedGlobal).locals.get? (0, Text.fold "t_set") = some 1 :=
    (hlocals _ _ _).2 ⟨_, hsecond, rfl, by decide +kernel⟩
  -- neither of the two variables is a local of the other program
  have hnone : ∀ k : String, (ofSteps shadowedGlobal).locals.get? (1, k) = none := by
    intro k
    cases hk : (ofSteps shadowedGlobal).locals.get? (1, k) with
    | none => rfl
    | some id =>
      obtain ⟨v, hv, hscope, -⟩ := (hlocals _ _ _).1 hk
      have hlt : id < 2 := hsize ▸ (hdense id).1 ⟨v, hv⟩
      obtain rfl | rfl := Nat.le_one_iff_eq_zero_or_eq_one.1 (Nat.le_of_lt_succ hlt)
      · rw [hfirst] at hv
        cases hv
        cases hscope
      · rw [hsecond] at hv
        cases hv
        cases hscope
  refine ⟨hfold ▸ hglobal, hfold ▸ hlocal, hsize, (hold "t_set" .actuator 0 hglobal).1, ?_, ?_, ?_,
    hlater shadowedGlobal 0 _ hfirst⟩
  · rw [hlookup, hlocal]
    rfl
  · rw [hlookup, hnone, hglobal]
    rfl
  · have hadded := (hnewLocal 1 "x" (hnone _)).1
    rw [hsize] at hadded
    exact ⟨_, hadded⟩

end Store

end Erl
