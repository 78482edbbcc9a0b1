/-
  Erl.Proofs.Controller.Naming

  Names while locals are added.

  A local is added to a program only for a name that stands for nothing there.  So a name that
  stands for something keeps what it stands for, in every program, and the added name stands
  for the new local from then on.
-/

import Erl.Proofs.Machine.Meaning
import Erl.Proofs.Store

namespace Erl

namespace Store

/-- A new variable is found where nothing was found before, if it has the scope and the
    name. -/
theorem find?_push (t : Store) (name : String) (scope : Scope) (origin : Origin)
    (scope' : Scope) (s : String) :
    (t.push name scope origin).find? scope' s
      = (t.find? scope' s).or
          (if scope = scope' ∧ Text.sameName name s = true then some t.size else none) := by
  simp only [find?_eq, push, add, ofEntries, size, Array.findIdx?_push, Bool.and_eq_true,
    beq_iff_eq]

/-- Spellings that name the same thing are found alike. -/
theorem find?_congr (t : Store) (scope : Scope) {a b : String}
    (h : Text.sameName a b = true) : t.find? scope a = t.find? scope b := by
  have hfold : Text.fold a = Text.fold b := by simpa [Text.sameName] using h
  simp only [find?_eq, Text.sameName, hfold]

end Store

namespace Naming

/-- Spellings that name the same thing stand for the same. -/
theorem resolve?_congr (names : Naming) {a b : String} (h : Text.sameName a b = true) :
    names.resolve? a = names.resolve? b := by
  simp only [resolve?, names.store.find?_congr _ h, trendNamed?_congr names.trends h]

/-- A name stands for the variable that it denotes, or else for a trend. -/
theorem resolve?_eq (names : Naming) (s : String) :
    names.resolve? s =
      match names.store.lookup? names.program s with
      | some id => some (.variableAt id)
      | none => (trendNamed? names.trends s).map .trendAt := by
  unfold resolve? Store.lookup? Store.global?
  cases names.store.find? (.local_ names.program) s <;> rfl

/-- A name stands for nothing exactly when it denotes neither a variable nor a trend. -/
theorem resolve?_eq_none_iff {names : Naming} {s : String} :
    names.resolve? s = none ↔
      names.store.lookup? names.program s = none ∧ trendNamed? names.trends s = none := by
  rw [resolve?_eq]
  cases names.store.lookup? names.program s <;> simp

/-- The names after a local was added to a program. -/
def addLocal (names : Naming) (program : ProgramId) (name : String) : Naming :=
  { names with store := names.store.push name (.local_ program) .user }

@[simp] theorem addLocal_program (names : Naming) (program : ProgramId) (name : String) :
    (names.addLocal program name).program = names.program := rfl

@[simp] theorem addLocal_trends (names : Naming) (program : ProgramId) (name : String) :
    (names.addLocal program name).trends = names.trends := rfl

/-- A name that stands for something keeps what it stands for when a local is added to a
    program in which the name of the local stood for nothing. -/
theorem le_addLocal (names : Naming) {program : ProgramId} {name : String}
    (h : resolve? { names with program } name = none) : names.Le (names.addLocal program name) := by
  refine ⟨rfl, ?_⟩
  intro s r hr
  -- the new local can only be found in its own program and under its own name
  have hlocal : (names.addLocal program name).store.find? (.local_ names.program) s
      = names.store.find? (.local_ names.program) s := by
    rw [addLocal, Store.find?_push]
    split
    · next hsame =>
      obtain ⟨hscope, hname⟩ := hsame
      cases hscope
      rw [resolve?_congr _ hname, hr] at h
      cases h
    · exact Option.or_none
  have hglobal : (names.addLocal program name).store.find? .global s
      = names.store.find? .global s := by
    rw [addLocal, Store.find?_push, if_neg (by simp), Option.or_none]
  rw [← hr]
  simp only [resolve?, addLocal_program, addLocal_trends, hlocal, hglobal]

/-- The name of an added local stands for the local. -/
theorem resolve?_addLocal {names : Naming} {name : String} (h : names.resolve? name = none) :
    (names.addLocal names.program name).resolve? name
      = some (.variableAt names.store.size) := by
  have hnone : names.store.find? (.local_ names.program) name = none := by
    have hlookup := (resolve?_eq_none_iff.1 h).1
    exact (Option.or_eq_none_iff.1 hlookup).1
  have hself : Text.sameName name name = true := by simp [Text.sameName]
  rw [resolve?, addLocal]
  simp only [Store.find?_push, hnone, hself, and_self, if_true, Option.none_or]

end Naming

end Erl
