/-
  Erl.Proofs.Store

  Variables keep their origins.

  What a variable was created for decides who may assign it, so everything that is proved about
  assignments is proved by way of origins.  A variable that is added leaves all others as they
  are; an assignment leaves every origin as it is, and every name where it is found.
-/

import Erl.Store

namespace Erl

namespace Store

/-- What the variable at a position was created for. -/
def origin? (t : Store) (id : VariableId) : Option Origin :=
  (t.get? id).map Variable.origin

/-- The variables after one was added at the end. -/
def add (t : Store) (x : Variable) : Store :=
  .ofEntries (t.entries.push x)

/-- A variable that is added leaves the others as they are. -/
theorem get?_add (t : Store) (x : Variable) (id : VariableId) :
    (t.add x).get? id = if id = t.size then some x else t.get? id :=
  Array.getElem?_push

theorem lt_size_of_get? {t : Store} {id : VariableId} {x : Variable} (h : t.get? id = some x) :
    id < t.size := by
  obtain ⟨hlt, -⟩ := Array.getElem?_eq_some_iff.1 h
  exact hlt

theorem lt_size_of_origin? {t : Store} {id : VariableId} {o : Origin}
    (h : t.origin? id = some o) : id < t.size := by
  obtain ⟨x, hx, -⟩ := Option.map_eq_some_iff.1 h
  exact lt_size_of_get? hx

/-- All variables stay as they are, and others may be added. -/
def Grows (t t' : Store) : Prop :=
  ∀ (id : VariableId) (x : Variable), t.get? id = some x → t'.get? id = some x

theorem Grows.refl (t : Store) : t.Grows t :=
  fun _ _ h => h

theorem Grows.trans {t t' t'' : Store} (h : t.Grows t') (h' : t'.Grows t'') : t.Grows t'' :=
  fun id x hx => h' id x (h id x hx)

/-- A variable that is added leaves the variables before it as they are. -/
theorem Grows.add (t : Store) (x : Variable) : t.Grows (t.add x) := by
  intro id y h
  rw [get?_add, if_neg (Nat.ne_of_lt (lt_size_of_get? h)), h]

/-- All variables keep their origins, and others may be added. -/
def Keeps (t t' : Store) : Prop :=
  ∀ (id : VariableId) (o : Origin), t.origin? id = some o → t'.origin? id = some o

theorem Keeps.refl (t : Store) : t.Keeps t :=
  fun _ _ h => h

theorem Keeps.of_origin?_eq {t t' : Store} (h : ∀ id, t'.origin? id = t.origin? id) :
    t.Keeps t' :=
  fun id _ ho => (h id).trans ho

theorem Grows.keeps {t t' : Store} (h : t.Grows t') : t.Keeps t' := by
  intro id o ho
  obtain ⟨x, hx, hxo⟩ := Option.map_eq_some_iff.1 ho
  exact Option.map_eq_some_iff.2 ⟨x, h id x hx, hxo⟩

/-- A variable that exists has an origin. -/
theorem exists_origin?_of_lt {t : Store} {id : VariableId} (h : id < t.size) :
    ∃ o, t.origin? id = some o :=
  ⟨_, congrArg (Option.map Variable.origin) (Array.getElem?_eq_getElem h)⟩

theorem Keeps.size_le {t t' : Store} (h : t.Keeps t') : t.size ≤ t'.size := by
  by_cases hsize : t.size = 0
  · omega
  · -- the last variable is still there
    obtain ⟨o, ho⟩ := exists_origin?_of_lt (Nat.sub_one_lt hsize)
    have hlast : t.size - 1 < t'.size := lt_size_of_origin? (h _ o ho)
    omega

/-- A change of the last variable is a change of what was added. -/
theorem modify_add (t : Store) (x : Variable) (f : Variable → Variable) :
    (t.add x).entries.modify t.size f = (t.add (f x)).entries := by
  apply Array.ext_getElem?
  intro i
  rw [Array.getElem?_modify]
  simp only [add, ofEntries, size, Array.getElem?_push]
  by_cases hi : i = t.entries.size
  · simp [hi]
  · simp [hi, Ne.symm hi]

/-- The variables after a declaration. -/
def push (t : Store) (name : String) (scope : Scope) (origin : Origin) : Store :=
  t.add ⟨name, scope, origin, .null, none⟩

theorem declare_eq {t : Store} {name : String} {scope : Scope} (h : t.find? scope name = none)
    (origin : Origin) : t.declare name scope origin h = t.push name scope origin :=
  ext_entries rfl

theorem addGlobal_of_some {t : Store} {name : String} {id : VariableId}
    (h : t.global? name = some id) (origin : Origin) : t.addGlobal name origin = .error id := by
  unfold addGlobal
  split
  · next existing hfound => rw [Option.some.inj (hfound.symm.trans h)]
  · next hnone => cases hnone.symm.trans h

theorem addGlobal_of_none {t : Store} {name : String} (h : t.global? name = none)
    (origin : Origin) :
    t.addGlobal name origin = .ok (t.size, t.push name .global origin) := by
  unfold addGlobal
  split
  · next existing hfound => cases hfound.symm.trans h
  · exact congrArg (fun grown => Except.ok (t.size, grown)) (declare_eq h origin)

theorem ensureLocal_of_some {t : Store} {program : ProgramId} {name : String} {id : VariableId}
    (h : t.find? (.local_ program) name = some id) : t.ensureLocal program name = (id, t) := by
  unfold ensureLocal
  split
  · next existing hfound => rw [Option.some.inj (hfound.symm.trans h)]
  · next hnone => cases hnone.symm.trans h

theorem ensureLocal_of_none {t : Store} {program : ProgramId} {name : String}
    (h : t.find? (.local_ program) name = none) :
    t.ensureLocal program name = (t.size, t.push name (.local_ program) .user) := by
  unfold ensureLocal
  split
  · next existing hfound => cases hfound.symm.trans h
  · exact congrArg (Prod.mk t.size) (declare_eq h .user)

/-- A new variable stands behind all others. -/
@[simp] theorem size_push (t : Store) (name : String) (scope : Scope) (origin : Origin) :
    (t.push name scope origin).size = t.size + 1 := by
  simp [push, add, ofEntries, size]

/-- A new variable leaves the others as they are. -/
theorem get?_push (t : Store) (name : String) (scope : Scope) (origin : Origin)
    (id : VariableId) :
    (t.push name scope origin).get? id
      = if id = t.size then some ⟨name, scope, origin, .null, none⟩ else t.get? id :=
  Array.getElem?_push

/-- What a new variable is assigned is what it holds. -/
theorem push_set (t : Store) (name : String) (scope : Scope) (origin : Origin) (v : Value) :
    (t.push name scope origin).set t.size v = t.add ⟨name, scope, origin, v, none⟩ := by
  exact ext_entries (modify_add t ⟨name, scope, origin, .null, none⟩ fun x => { x with value := v })

/-- A new variable that is linked to an actuator drives it. -/
theorem push_linkActuator (t : Store) (name : String) (scope : Scope) (origin : Origin)
    (actuator : Nat) :
    (t.push name scope origin).linkActuator t.size actuator
      = t.add ⟨name, scope, origin, .null, some actuator⟩ := by
  exact ext_entries (modify_add t ⟨name, scope, origin, .null, none⟩
    fun x => { x with actuator := some actuator })

/-! ## Origins -/

/-- Variables are assigned according to their origins. -/
theorem isProtected_eq (t : Store) (id : VariableId) :
    t.isProtected id = ((t.origin? id).map Origin.isProtected).getD false := by
  unfold isProtected origin? get?
  cases t.entries[id]? <;> rfl

/-- An assignment keeps every origin. -/
@[simp] theorem origin?_set (t : Store) (target id : VariableId) (v : Value) :
    (t.set target v).origin? id = t.origin? id := by
  rw [origin?, get?_set, origin?]
  cases t.get? id with
  | none => rfl
  | some x =>
    simp only [Option.map_some]
    split <;> rfl

/-- An assignment keeps all variables but its target. -/
theorem get?_set_of_ne (t : Store) {target id : VariableId} (h : target ≠ id) (v : Value) :
    (t.set target v).get? id = t.get? id := by
  rw [get?_set]
  cases t.get? id <;> simp [h]

/-- Assignments keep every origin. -/
theorem origin?_foldl_set {α : Type} (f : Store → α → Store)
    (hf : ∀ t a id, (f t a).origin? id = t.origin? id) (xs : List α) (t : Store)
    (id : VariableId) : (xs.foldl f t).origin? id = t.origin? id := by
  induction xs generalizing t with
  | nil => rfl
  | cons a rest ih => rw [List.foldl_cons, ih, hf]

/-- The value of the variable at a position. -/
theorem value_eq (t : Store) (id : VariableId) :
    t.value id = ((t.get? id).map Variable.value).getD .null := by
  unfold value get?
  cases t.entries[id]? <;> rfl

/-! ## Values that change -/

/-- All variables keep everything but their values, and others may be added. -/
def Lasts (t t' : Store) : Prop :=
  ∀ (id : VariableId) (x : Variable), t.get? id = some x →
    ∃ v, t'.get? id = some { x with value := v }

variable {t t' t'' : Store}

theorem Grows.lasts (h : t.Grows t') : t.Lasts t' :=
  fun id x hx => ⟨x.value, h id x hx⟩

theorem Lasts.refl (t : Store) : t.Lasts t :=
  (Grows.refl t).lasts

theorem Lasts.trans (h : t.Lasts t') (h' : t'.Lasts t'') : t.Lasts t'' := by
  intro id x hx
  obtain ⟨v, hv⟩ := h id x hx
  obtain ⟨v', hv'⟩ := h' id _ hv
  exact ⟨v', hv'⟩

/-- Where no variable is added, each is one that was there, up to its value. -/
theorem Lasts.get?_of_size (h : t.Lasts t') (hsize : t'.size = t.size)
    {id : VariableId} {v : Variable} (hv : t'.get? id = some v) :
    ∃ x, t.get? id = some x ∧ ∃ value, v = { x with value } := by
  have hlt : id < t.size := hsize ▸ lt_size_of_get? hv
  have hx : t.get? id = some t.entries[id] := Array.getElem?_eq_getElem hlt
  obtain ⟨value, hvalue⟩ := h id _ hx
  exact ⟨_, hx, value, Option.some.inj (hv.symm.trans hvalue)⟩

theorem Lasts.set (t : Store) (target : VariableId) (v : Value) : t.Lasts (t.set target v) := by
  intro id x hx
  rw [get?_set, hx]
  by_cases hid : target = id
  · exact ⟨v, by simp [hid]⟩
  · exact ⟨x.value, by simp [hid]⟩

theorem Lasts.foldl {α : Type} {f : Store → α → Store}
    (hf : ∀ (t : Store) (a : α), t.Lasts (f t a)) (xs : List α) (t : Store) :
    t.Lasts (xs.foldl f t) := by
  induction xs generalizing t with
  | nil => exact .refl t
  | cons a rest ih => exact (hf t a).trans (ih (f t a))

/-- What is found is found where it was. -/
theorem Lasts.find? (h : t.Lasts t') {scope : Scope} {n : String} {id : VariableId}
    (hid : t.find? scope n = some id) : t'.find? scope n = some id := by
  rw [find?_eq] at hid ⊢
  obtain ⟨hlt, hmatch, hfirst⟩ := Array.findIdx?_eq_some_iff_getElem.1 hid
  -- up to that position scopes and names are the same
  have hsame : ∀ k, (hk : k < t.entries.size) → ∃ hk' : k < t'.entries.size,
      t'.entries[k].scope = t.entries[k].scope ∧ t'.entries[k].name = t.entries[k].name := by
    intro k hk
    obtain ⟨v, hv⟩ := h k _ (Array.getElem?_eq_getElem hk)
    obtain ⟨hk', heq⟩ := Array.getElem?_eq_some_iff.1 hv
    exact ⟨hk', by rw [heq], by rw [heq]⟩
  obtain ⟨hlt', hscope, hname⟩ := hsame id hlt
  refine Array.findIdx?_eq_some_iff_getElem.2 ⟨hlt', ?_, fun k hk => ?_⟩
  · rw [hscope, hname]
    exact hmatch
  · obtain ⟨hk', hscope', hname'⟩ := hsame k (Nat.lt_trans hk hlt)
    rw [hscope', hname']
    exact hfirst k hk

end Store

end Erl
