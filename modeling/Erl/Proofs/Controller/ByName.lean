/-
  Erl.Proofs.Controller.ByName

  Variables by name.

  A variable is found by its scope and its name, wherever it stands.  Two stores can so have the
  same globals at other positions: their globals correspond by name, and what is declared or changed
  under a name in both is the same again.
-/

import Erl.Proofs.Controller.Reached
import Erl.Proofs.Machine.Renaming

namespace Erl

/-! ## Variables by name -/

namespace Store

/-- The variable of a scope with a name. -/
def named? (t : Store) (scope : Scope) (name : String) : Option Variable :=
  (t.find? scope name).bind t.get?

variable {t t' : Store} {scope scope' : Scope} {n n' : String} {i j : VariableId}

/-- What is found has the scope and the name that it is found by. -/
theorem get?_of_find? (h : t.find? scope n = some i) :
    ∃ v, t.get? i = some v ∧ v.scope = scope ∧ Text.sameName v.name n = true := by
  rw [find?_eq] at h
  obtain ⟨hlt, hfound, -⟩ := Array.findIdx?_eq_some_iff_getElem.1 h
  have hboth := Bool.and_eq_true_iff.1 hfound
  exact ⟨_, Array.getElem?_eq_getElem hlt, beq_iff_eq.1 hboth.1, hboth.2⟩

theorem named?_of_find? (h : t.find? scope n = some i) : t.named? scope n = t.get? i := by
  rw [named?, h]
  rfl

theorem named?_eq_none_iff : t.named? scope n = none ↔ t.find? scope n = none := by
  cases h : t.find? scope n with
  | none => simp [named?, h]
  | some i =>
    obtain ⟨v, hv, -⟩ := get?_of_find? h
    simp [named?, h, hv]

/-- A variable is found by one scope and one name only. -/
theorem find?_unique (h : t.find? scope n = some i) (h' : t.find? scope' n' = some i) :
    scope = scope' ∧ Text.sameName n n' = true := by
  obtain ⟨v, hv, hscope, hname⟩ := get?_of_find? h
  obtain ⟨v', hv', hscope', hname'⟩ := get?_of_find? h'
  obtain rfl := Option.some.inj (hv.symm.trans hv')
  have hfold : Text.fold v.name = Text.fold n := beq_iff_eq.1 hname
  have hfold' : Text.fold v.name = Text.fold n' := beq_iff_eq.1 hname'
  exact ⟨hscope.symm.trans hscope', beq_iff_eq.2 (hfold.symm.trans hfold')⟩

/-- The variables of two stores that are found by the same scope and name correspond. -/
def pairing (t t' : Store) : Pairing where
  rel i j := ∃ scope n, t.find? scope n = some i ∧ t'.find? scope n = some j
  unique := by
    rintro i j i' j' ⟨scope, n, hi, hj⟩ ⟨scope', n', hi', hj'⟩
    constructor
    · rintro rfl
      obtain ⟨rfl, hname⟩ := find?_unique hi hi'
      rw [t'.find?_congr scope hname] at hj
      exact Option.some.inj (hj.symm.trans hj')
    · rintro rfl
      obtain ⟨rfl, hname⟩ := find?_unique hj hj'
      rw [t.find?_congr scope hname] at hi
      exact Option.some.inj (hi.symm.trans hi')

/-- The globals of two stores that have the same name. -/
def GlobalPair (t t' : Store) (i j : VariableId) : Prop :=
  ∃ n, t.global? n = some i ∧ t'.global? n = some j

theorem GlobalPair.rel (h : GlobalPair t t' i j) : (pairing t t').rel i j := by
  obtain ⟨n, hi, hj⟩ := h
  exact ⟨.global, n, hi, hj⟩

/-! ## Added variables -/

/-- What is found is found where it was, however many variables are added. -/
theorem find?_of_grows (h : t.Grows t') (hi : t.find? scope n = some i) :
    t'.find? scope n = some i :=
  h.lasts.find? hi

theorem named?_of_grows (h : t.Grows t') {v : Variable} (hv : t.named? scope n = some v) :
    t'.named? scope n = some v := by
  obtain ⟨i, hi, hget⟩ := Option.bind_eq_some_iff.1 hv
  exact (named?_of_find? (find?_of_grows h hi)).trans (h i v hget)

/-- A variable is found by its scope and name, or another one is. -/
theorem find?_ne_none_of_get? {v : Variable} (hv : t.get? i = some v)
    (hname : Text.sameName v.name n = true) : t.find? v.scope n ≠ none := by
  intro hnone
  obtain ⟨hlt, rfl⟩ := Array.getElem?_eq_some_iff.1 hv
  rw [find?_eq] at hnone
  have hother := Array.findIdx?_eq_none_iff.1 hnone _ (Array.getElem_mem hlt)
  simp [hname] at hother

/-! ## Declared variables -/

theorem find?_push_of_some (h : t.find? scope n = some i) (name : String) (scope' : Scope)
    (origin : Origin) : (t.push name scope' origin).find? scope n = some i := by
  rw [find?_push, h]
  rfl

/-- A new variable is found where nothing was found before. -/
theorem named?_push (t : Store) (name : String) (scope' : Scope) (origin : Origin)
    (scope : Scope) (n : String) :
    (t.push name scope' origin).named? scope n
      = (t.named? scope n).or
          (if scope' = scope ∧ Text.sameName name n = true then
            some ⟨name, scope', origin, .null, none⟩ else none) := by
  cases h : t.find? scope n with
  | some i =>
    obtain ⟨v, hv, -⟩ := get?_of_find? h
    have hlt := lt_size_of_get? hv
    rw [named?_of_find? h, named?_of_find? (find?_push_of_some h name scope' origin), get?_push,
      if_neg (Nat.ne_of_lt hlt), hv]
    rfl
  | none =>
    rw [named?_eq_none_iff.2 h, named?, find?_push, h, Option.none_or, Option.none_or]
    split
    · rw [Option.bind_some, get?_push, if_pos rfl]
    · rfl

end Store

/-- A change of a variable that keeps its name, scope and origin. -/
structure Variable.Keeps (f : Variable → Variable) : Prop where
  name : ∀ v, (f v).name = v.name
  scope : ∀ v, (f v).scope = v.scope
  origin : ∀ v, (f v).origin = v.origin

theorem Variable.keeps_value (x : Value) : Variable.Keeps fun v => { v with value := x } :=
  ⟨fun _ => rfl, fun _ => rfl, fun _ => rfl⟩

theorem Variable.keeps_actuator (actuator : Nat) :
    Variable.Keeps fun v => { v with actuator := some actuator } :=
  ⟨fun _ => rfl, fun _ => rfl, fun _ => rfl⟩

namespace Store

section Adjust

variable {f : Variable → Variable} (hf : Variable.Keeps f)
include hf

theorem find?_adjust (t : Store) (id : VariableId) (scope : Scope) (n : String) :
    (t.adjust id f hf.name hf.scope).find? scope n = t.find? scope n := by
  -- only scopes and names are looked at
  have hkeys : (t.adjust id f hf.name hf.scope).entries.map (fun v => (v.scope, v.name))
      = t.entries.map fun v => (v.scope, v.name) := by
    apply Array.ext_getElem?
    intro i
    rw [Array.getElem?_map, Array.getElem?_map, adjust, Array.getElem?_modify]
    split
    · rw [Option.map_map]
      exact congrArg (Option.map · _) (funext fun v => Prod.ext (hf.scope v) (hf.name v))
    · rfl
  have hfind : ∀ t : Store, t.find? scope n
      = (t.entries.map fun v => (v.scope, v.name)).findIdx? fun key =>
          key.1 == scope && Text.sameName key.2 n := by
    intro t
    rw [find?_eq, Array.findIdx?_map]
    rfl
  rw [hfind, hfind, hkeys]

theorem named?_adjust (t : Store) (id : VariableId) (scope : Scope) (n : String) :
    (t.adjust id f hf.name hf.scope).named? scope n
      = if t.find? scope n = some id then (t.named? scope n).map f else t.named? scope n := by
  cases h : t.find? scope n with
  | none =>
    rw [named?, find?_adjust hf, h, named?_eq_none_iff.2 h]
    simp
  | some i =>
    rw [named?_of_find? h, named?, find?_adjust hf, h, Option.bind_some]
    show (t.entries.modify id f)[i]? = _
    rw [Array.getElem?_modify]
    by_cases hid : id = i
    · rw [if_pos hid, if_pos (congrArg some hid.symm)]
      rfl
    · rw [if_neg hid, if_neg fun hsome => hid (Option.some.inj hsome).symm]
      rfl

theorem origin?_adjust (t : Store) (id i : VariableId) :
    (t.adjust id f hf.name hf.scope).origin? i = t.origin? i := by
  show ((t.entries.modify id f)[i]?).map Variable.origin = (t.entries[i]?).map Variable.origin
  rw [Array.getElem?_modify]
  split
  · rw [Option.map_map]
    exact congrArg (Option.map · _) (funext hf.origin)
  · rfl

end Adjust

/-- Globals are declared: what was found is found where it was, all variables keep their origins,
    and no local is new. -/
structure Declares (t t' : Store) : Prop where
  found : ∀ {scope : Scope} {n : String} {i : VariableId},
    t.find? scope n = some i → t'.find? scope n = some i
  locals : ∀ {program : ProgramId} {n : String},
    t'.find? (.local_ program) n ≠ none → t.find? (.local_ program) n ≠ none
  kept : t.Keeps t'

namespace Declares

variable {t t' : Store}

theorem refl (t : Store) : t.Declares t :=
  ⟨fun h => h, fun h => h, .refl t⟩

theorem push (t : Store) (name : String) (origin : Origin) :
    t.Declares (t.push name .global origin) := by
  refine ⟨fun h => find?_push_of_some h _ _ _, fun {program n} h => ?_, (Grows.add t _).keeps⟩
  rw [find?_push, if_neg (by simp), Option.or_none] at h
  exact h

theorem adjust {f : Variable → Variable} (hf : Variable.Keeps f) (t : Store) (id : VariableId) :
    t.Declares (t.adjust id f hf.name hf.scope) := by
  refine ⟨fun h => ?_, fun h => ?_, .of_origin?_eq (origin?_adjust hf t id)⟩
  · rw [find?_adjust hf]
    exact h
  · rw [find?_adjust hf] at h
    exact h

/-- A global has the same name in both stores, whatever is declared. -/
theorem globalPair {u u' : Store} (h : t.Declares t') (h' : u.Declares u') {i j : VariableId}
    (hij : GlobalPair t u i j) : GlobalPair t' u' i j := by
  obtain ⟨n, hi, hj⟩ := hij
  exact ⟨n, h.found hi, h'.found hj⟩

/-- A name that may be assigned may still be assigned, whatever trends there are. -/
theorem assignable (h : t.Declares t') {trends trends' : Array Trend} {program : ProgramId}
    {s : String} (hs : (Naming.mk t trends program).Assignable s) :
    (Naming.mk t' trends' program).Assignable s := by
  obtain ⟨id, hid, hfree⟩ := hs
  have hlt : id < t.size := Naming.resolve?_inRange hid 0
  have hfree' : t'.isProtected id = false := by
    obtain ⟨o, ho⟩ := exists_origin?_of_lt hlt
    dsimp only at hfree
    rw [isProtected_eq, ho] at hfree
    rw [isProtected_eq, h.kept id o ho]
    exact hfree
  refine ⟨id, ?_, hfree'⟩
  unfold Naming.resolve? at hid ⊢
  dsimp only at hid ⊢
  cases hlocal : t.find? (.local_ program) s with
  | some i =>
    rw [hlocal] at hid
    rw [h.found hlocal]
    exact hid
  | none =>
    have hlocal' : t'.find? (.local_ program) s = none := by
      by_contra hnew
      exact h.locals hnew hlocal
    rw [hlocal] at hid
    rw [hlocal']
    cases hglobal : t.find? .global s with
    | some i =>
      rw [hglobal] at hid
      rw [h.found hglobal]
      exact hid
    | none =>
      rw [hglobal] at hid
      obtain ⟨_, -, htrend⟩ := Option.map_eq_some_iff.1 hid
      cases htrend

end Declares

/-- Two stores with the same globals.  The first may have locals besides, which hold nothing yet;
    the second has none.  The variables that follow the clock stand at their positions. -/
structure Alike (t t' : Store) : Prop where
  global : ∀ n, t.named? .global n = t'.named? .global n
  fresh : ∀ {program : ProgramId} {n : String} {v : Variable},
    t.named? (.local_ program) n = some v → v.origin = .user ∧ v.value = .null
  bare : ∀ (program : ProgramId) (n : String), t'.find? (.local_ program) n = none
  clock : ∀ {n : String} {i : VariableId}, Controller.clockVariables.find? .global n = some i →
    t.find? .global n = some i ∧ t'.find? .global n = some i

namespace Alike

variable {t t' : Store}

theorem global?_eq_none_iff (h : t.Alike t') (n : String) :
    t.global? n = none ↔ t'.global? n = none := by
  rw [global?, global?, ← named?_eq_none_iff, ← named?_eq_none_iff, h.global]

/-- A global of the first store has one of the same name in the second. -/
theorem exists_pair (h : t.Alike t') {n : String} {i : VariableId} (hi : t.global? n = some i) :
    ∃ j, t'.global? n = some j ∧ GlobalPair t t' i j := by
  have hsome : t'.global? n ≠ none := fun hnone => by
    rw [(h.global?_eq_none_iff n).2 hnone] at hi
    cases hi
  obtain ⟨j, hj⟩ := Option.ne_none_iff_exists'.1 hsome
  exact ⟨j, hj, n, hi, hj⟩

/-- A global with a new name is declared in both. -/
theorem push (h : t.Alike t') (name : String) (origin : Origin) :
    (t.push name .global origin).Alike (t'.push name .global origin) := by
  refine ⟨fun n => ?_, fun {program n v} hv => ?_, fun program n => ?_, fun {n i} hi => ?_⟩
  · rw [named?_push, named?_push, h.global]
  · rw [named?_push, if_neg (by simp), Option.or_none] at hv
    exact h.fresh hv
  · rw [find?_push, if_neg (by simp), Option.or_none]
    exact h.bare program n
  · obtain ⟨hleft, hright⟩ := h.clock hi
    exact ⟨find?_push_of_some hleft _ _ _, find?_push_of_some hright _ _ _⟩

/-- A global of both is changed in the same way. -/
theorem adjust (h : t.Alike t') {i j : VariableId} (hij : GlobalPair t t' i j)
    {f : Variable → Variable} (hf : Variable.Keeps f) :
    (t.adjust i f hf.name hf.scope).Alike (t'.adjust j f hf.name hf.scope) := by
  refine ⟨fun n => ?_, fun {program n v} hv => ?_, fun program n => ?_, fun {n k} hk => ?_⟩
  · rw [named?_adjust hf, named?_adjust hf, h.global]
    -- both find the global that is changed, or both find another one
    have hsame : t.find? .global n = some i ↔ t'.find? .global n = some j := by
      constructor
      · intro hi
        obtain ⟨j', hj', hpair⟩ := h.exists_pair hi
        rw [((pairing t t').unique hij.rel hpair.rel).1 rfl]
        exact hj'
      · intro hj
        have hsome : t.find? .global n ≠ none := fun hnone => by
          have hnone' := (h.global?_eq_none_iff n).1 hnone
          rw [global?, hj] at hnone'
          cases hnone'
        obtain ⟨i', hi'⟩ := Option.ne_none_iff_exists'.1 hsome
        rw [((pairing t t').unique hij.rel ⟨.global, n, hi', hj⟩).2 rfl]
        exact hi'
    simp only [hsame]
  · -- locals stay as they are
    have hother : t.find? (.local_ program) n ≠ some i := by
      intro hlocal
      obtain ⟨name, hi, -⟩ := hij
      cases (find?_unique hlocal hi).1
    rw [named?_adjust hf, if_neg hother] at hv
    exact h.fresh hv
  · rw [find?_adjust hf]
    exact h.bare program n
  · rw [find?_adjust hf, find?_adjust hf]
    exact h.clock hk

/-- A store without locals is like itself, if the clock has its variables. -/
theorem refl_of_bare
    (hbare : ∀ (program : ProgramId) (n : String), t.find? (.local_ program) n = none)
    (hclock : ∀ {n : String} {i : VariableId}, Controller.clockVariables.find? .global n = some i →
      t.find? .global n = some i) : t.Alike t := by
  refine ⟨fun _ => rfl, fun {program n v} hv => ?_, hbare, fun hi => ⟨hclock hi, hclock hi⟩⟩
  rw [named?_eq_none_iff.2 (hbare program n)] at hv
  cases hv

end Alike

end Store

end Erl
