/-
  Erl.Store

  The table of variables.

  A variable is global or local to one program.  Names are unique within a scope up to letter
  case, variables are never removed, and a variable keeps its position, name, scope and origin
  for ever.  Inside a program a local hides the global of the same name.

  Variables are found by way of two indexes, one of the globals by name and one of the locals by
  program and name.  A declaration puts its variable down in one of them.
-/

import Erl.Catalog
import Erl.Text.Fold
import Erl.Value

namespace Erl

/-- Where a variable can be seen. -/
inductive Scope where
  | global
  | local_ (program : ProgramId)
  deriving Repr, DecidableEq

/-- What a variable was created for. -/
inductive Origin where
  /-- Declared by the author of the model, or created by an assignment. -/
  | user
  | externalInterface
  | fmuImport
  | fmuExport
  /-- Written to the host after each calling point. -/
  | actuator
  /-- Refreshed from an output of the host. -/
  | sensor
  /-- Refreshed from a quantity that the host computes. -/
  | internalVariable
  /-- Refreshed from the simulation clock. -/
  | builtIn
  /-- Holds the index of a performance curve. -/
  | curveIndex
  /-- Holds the index of a construction of the host. -/
  | constructionIndex
  deriving Repr, DecidableEq

/-- Whether programs and the host must not assign a variable. -/
def Origin.isProtected : Origin → Bool
  | sensor | internalVariable | builtIn | curveIndex | constructionIndex => true
  | user | externalInterface | fmuImport | fmuExport | actuator => false

/-- A variable; `actuator` is the position of the actuator that it drives. -/
structure Variable where
  name : String
  scope : Scope
  origin : Origin
  value : Value
  actuator : Option Nat
  deriving Repr, DecidableEq

/-- The key of a variable in the index of globals. -/
def Variable.globalKey? (v : Variable) : Option String :=
  match v.scope with
  | .global => some (Text.fold v.name)
  | .local_ _ => none

/-- The key of a variable in the index of locals. -/
def Variable.localKey? (v : Variable) : Option (ProgramId × String) :=
  match v.scope with
  | .global => none
  | .local_ program => some (program, Text.fold v.name)

/-- All variables of a model, and the positions of globals and locals by name. -/
structure Store where
  entries : Array Variable
  globals : Index String
  locals : Index (ProgramId × String)
  globals_inStep : globals = .ofEntries Variable.globalKey? entries
  locals_inStep : locals = .ofEntries Variable.localKey? entries

namespace Store

/-- The table of some variables. -/
def ofEntries (entries : Array Variable) : Store :=
  ⟨entries, .ofEntries Variable.globalKey? entries, .ofEntries Variable.localKey? entries, rfl, rfl⟩

/-- Tables of the same variables are the same. -/
theorem ext_entries {t t' : Store} (h : t.entries = t'.entries) : t = t' := by
  obtain ⟨entries, globals, locals, rfl, rfl⟩ := t
  obtain ⟨entries', globals', locals', rfl, rfl⟩ := t'
  obtain rfl : entries = entries' := h
  rfl

instance : DecidableEq Store := fun t t' =>
  decidable_of_iff (t.entries = t'.entries) ⟨ext_entries, fun h => h ▸ rfl⟩

instance : Repr Store :=
  ⟨fun t => reprPrec t.entries⟩

/-- No variables. -/
def empty : Store := ⟨#[], .empty, .empty, rfl, rfl⟩

/-- The number of variables. -/
def size (t : Store) : Nat :=
  t.entries.size

/-- The variable at a position. -/
def get? (t : Store) (id : VariableId) : Option Variable :=
  t.entries[id]?

/-- The variable of a scope with a name, in any letter case. -/
def find? (t : Store) (scope : Scope) (name : String) : Option VariableId :=
  match scope with
  | .global => t.globals.get? (Text.fold name)
  | .local_ program => t.locals.get? (program, Text.fold name)

/-- The global with a name. -/
def global? (t : Store) (name : String) : Option VariableId :=
  t.find? .global name

/-- What a name denotes inside a program: its local, or else the global. -/
def lookup? (t : Store) (program : ProgramId) (name : String) : Option VariableId :=
  (t.find? (.local_ program) name).or (t.global? name)

/-- Adds a variable at the end and puts it down in its index; its value is null. -/
def declare (t : Store) (name : String) (scope : Scope) (origin : Origin)
    (h : t.find? scope name = none) : Store where
  entries := t.entries.push ⟨name, scope, origin, .null, none⟩
  globals := match scope with
    | .global => t.globals.insert (Text.fold name) t.entries.size
    | .local_ _ => t.globals
  locals := match scope with
    | .global => t.locals
    | .local_ program => t.locals.insert (program, Text.fold name) t.entries.size
  globals_inStep := by
    cases scope with
    | global =>
      rw [find?, t.globals_inStep] at h
      rw [t.globals_inStep]
      exact Index.insert_size rfl h
    | local_ program => exact t.globals_inStep.trans (Index.ofEntries_push_of_none rfl).symm
  locals_inStep := by
    cases scope with
    | global => exact t.locals_inStep.trans (Index.ofEntries_push_of_none rfl).symm
    | local_ program =>
      rw [find?, t.locals_inStep] at h
      rw [t.locals_inStep]
      exact Index.insert_size rfl h

/-- The new global of a name with its position, or the position of the global that already
    has the name. -/
def addGlobal (t : Store) (name : String) (origin : Origin) :
    Except VariableId (VariableId × Store) :=
  match h : t.global? name with
  | some existing => .error existing
  | none => .ok (t.size, t.declare name .global origin h)

/-- The local of a program with a name, which is created if there is none. -/
def ensureLocal (t : Store) (program : ProgramId) (name : String) :
    VariableId × Store :=
  match h : t.find? (.local_ program) name with
  | some existing => (existing, t)
  | none => (t.size, t.declare name (.local_ program) .user h)

/-- Changes a variable, but neither its name nor its scope. -/
def adjust (t : Store) (id : VariableId) (f : Variable → Variable)
    (hname : ∀ v, (f v).name = v.name) (hscope : ∀ v, (f v).scope = v.scope) : Store where
  entries := t.entries.modify id f
  globals := t.globals
  locals := t.locals
  globals_inStep := by
    have hkey : ∀ v, (f v).globalKey? = v.globalKey? := fun v => by
      rw [Variable.globalKey?, Variable.globalKey?, hname, hscope]
    exact t.globals_inStep.trans (Index.ofEntries_congr (map_modify_eq hkey _ id)).symm
  locals_inStep := by
    have hkey : ∀ v, (f v).localKey? = v.localKey? := fun v => by
      rw [Variable.localKey?, Variable.localKey?, hname, hscope]
    exact t.locals_inStep.trans (Index.ofEntries_congr (map_modify_eq hkey _ id)).symm

/-- The value of a variable; null for a position without one. -/
def value (t : Store) (id : VariableId) : Value :=
  match t.entries[id]? with
  | some v => v.value
  | none => .null

/-- Assigns a value. -/
def set (t : Store) (id : VariableId) (value : Value) : Store :=
  t.adjust id (fun v => { v with value }) (fun _ => rfl) fun _ => rfl

/-- Records the actuator that a variable drives. -/
def linkActuator (t : Store) (id : VariableId) (actuator : Nat) : Store :=
  t.adjust id (fun v => { v with actuator := some actuator }) (fun _ => rfl) fun _ => rfl

/-- Whether a variable must not be assigned. -/
def isProtected (t : Store) (id : VariableId) : Bool :=
  match t.entries[id]? with
  | some v => v.origin.isProtected
  | none => false

/-- An index finds what a search of the variables finds. -/
theorem find?_eq (t : Store) (scope : Scope) (name : String) :
    t.find? scope name
      = t.entries.findIdx? fun v => v.scope == scope && Text.sameName v.name name := by
  unfold find?
  cases scope with
  | global =>
    dsimp only
    rw [t.globals_inStep]
    refine Index.get?_ofEntries fun v => ?_
    rw [Bool.and_eq_true, beq_iff_eq, Text.sameName, beq_iff_eq, Variable.globalKey?]
    cases v.scope <;> simp
  | local_ program =>
    dsimp only
    rw [t.locals_inStep]
    refine Index.get?_ofEntries fun v => ?_
    rw [Bool.and_eq_true, beq_iff_eq, Text.sameName, beq_iff_eq, Variable.localKey?]
    cases v.scope <;> simp

/-! ## Reading after writing -/

/-- An assignment adds no variable. -/
@[simp] theorem size_set (t : Store) (id : VariableId) (v : Value) :
    (t.set id v).size = t.size := by
  simp [set, adjust, size]

/-- An assignment changes the value of its target and nothing else. -/
theorem get?_set (t : Store) (target id : VariableId) (x : Value) :
    (t.set target x).get? id
      = (t.get? id).map fun v => if target = id then { v with value := x } else v := by
  simp only [set, adjust, get?, Array.getElem?_modify]
  split <;> simp

/-- The value after an assignment is what was assigned, if the target exists. -/
theorem value_set (t : Store) (target id : VariableId) (x : Value) :
    (t.set target x).value id = if target = id ∧ id < t.size then x else t.value id := by
  have h := get?_set t target id x
  simp only [get?] at h
  unfold value
  rw [h]
  by_cases hid : id < t.entries.size
  · by_cases ht : target = id <;> simp [hid, ht, size]
  · simp [hid, size]

end Store

end Erl
