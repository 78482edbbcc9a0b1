/-
  Erl.Proofs.Controller.Reached

  What sources call for.

  A line reaches the name that it assigns and, unless the assignment is refused, the names in its
  expression.  Compiling adds locals for names that are reached and stand for nothing, and for no
  others; afterwards every name that is reached stands for something.  Which assignments are
  refused can be read off the names as they are when all is compiled.
-/

import Erl.Proofs.Model.Refused

namespace Erl

/-! ## Names in a source -/

mutual

/-- The names in an expression. -/
def Expr.names : Expr → List String
  | .literal _ => []
  | .name s _ => [s]
  | .negate e => e.names
  | .binary _ a b => a.names ++ b.names
  | .call _ args _ => Expr.namesOfAll args

/-- The names in expressions. -/
def Expr.namesOfAll : List Expr → List String
  | [] => []
  | e :: rest => e.names ++ Expr.namesOfAll rest

end

/-- A name is among some, in any letter case. -/
def IsNamed (names : List String) (n : String) : Prop :=
  ∃ s ∈ names, Text.sameName s n = true

theorem isNamed_nil (n : String) : ¬ IsNamed [] n := by
  rintro ⟨s, hs, -⟩
  cases hs

theorem isNamed_singleton {s n : String} : IsNamed [s] n ↔ Text.sameName s n = true := by
  simp [IsNamed]

theorem isNamed_append {names names' : List String} {n : String} :
    IsNamed (names ++ names') n ↔ IsNamed names n ∨ IsNamed names' n := by
  simp only [IsNamed, List.mem_append, or_and_right, exists_or]

namespace Naming

/-- A name stands for a variable that may be assigned. -/
def Assignable (names : Naming) (s : String) : Prop :=
  ∃ id, names.resolve? s = some (.variableAt id) ∧ names.store.isProtected id = false

/-- What is wrong with assigning a name in a line of a program. -/
def assignmentProblem? (names : Naming) (program s : String) (line : Nat) :
    Option ModelProblem :=
  match names.resolve? s with
  | some (.variableAt id) =>
    if names.store.isProtected id then some (.readOnlyAssignment program s line) else none
  | some (.trendAt _) => some (.trendAssignment program s line)
  | none => none

end Naming

/-- The names that a line reaches: the one that it assigns and, unless that must not be assigned,
    those in its expression. -/
inductive Instruction.Reaches (names : Naming) (n : String) :
    Instruction String Expr String → Prop where
  | target {target : String} {value : Expr} :
      Text.sameName target n = true → Reaches names n (.set target value)
  | value {target : String} {value : Expr} :
      names.Assignable target → IsNamed value.names n → Reaches names n (.set target value)
  | if_ {c : Expr} {next : Nat} : IsNamed c.names n → Reaches names n (.if_ c next)
  | elseIf {c : Expr} {next stop : Nat} :
      IsNamed c.names n → Reaches names n (.elseIf c next stop)
  | while_ {c : Expr} {stop : Nat} : IsNamed c.names n → Reaches names n (.while_ c stop)

/-- The names that a source reaches. -/
def Naming.Reaches (names : Naming) (source : String) (n : String) : Prop :=
  ∃ lines, parseCode source = .ok lines ∧ ∃ line ∈ lines.toList, line.instruction.Reaches names n

/-! ## Names that stay -/

namespace Store.Extends

variable {trends : Array Trend} {t t' : Store} {program : ProgramId}

/-- A name that stands for something stands for the same, and may be assigned if it might. -/
theorem resolve?_eq (h : t.Extends trends t') {s : String}
    (hs : (Naming.mk t trends program).resolve? s ≠ none) :
    (Naming.mk t' trends program).resolve? s = (Naming.mk t trends program).resolve? s := by
  obtain ⟨r, hr⟩ := Option.ne_none_iff_exists'.1 hs
  rw [hr, (h.names program).resolve? hr]

theorem isProtected_resolve? (h : t.Extends trends t') {s : String} {id : VariableId}
    (hs : (Naming.mk t trends program).resolve? s = some (.variableAt id)) :
    t'.isProtected id = t.isProtected id :=
  h.isProtected_eq (Naming.resolve?_inRange hs 0)

theorem assignable_iff (h : t.Extends trends t') {s : String}
    (hs : (Naming.mk t trends program).resolve? s ≠ none) :
    (Naming.mk t' trends program).Assignable s ↔ (Naming.mk t trends program).Assignable s := by
  unfold Naming.Assignable
  rw [h.resolve?_eq hs]
  refine exists_congr fun id => and_congr_right fun hid => ?_
  rw [h.isProtected_resolve? hid]

theorem assignmentProblem?_eq (h : t.Extends trends t') {s : String}
    (hs : (Naming.mk t trends program).resolve? s ≠ none) (title : String) (line : Nat) :
    (Naming.mk t' trends program).assignmentProblem? title s line
      = (Naming.mk t trends program).assignmentProblem? title s line := by
  unfold Naming.assignmentProblem?
  rw [h.resolve?_eq hs]
  cases hr : (Naming.mk t trends program).resolve? s with
  | none => rfl
  | some r =>
    cases r with
    | variableAt id =>
      dsimp only
      rw [h.isProtected_resolve? hr]
    | trendAt id => rfl

end Store.Extends

/-- All variables that are added hold nothing yet, may be assigned and drive no actuator. -/
def Store.AddsFresh (t t' : Store) : Prop :=
  ∀ (i : VariableId) (v : Variable), t'.get? i = some v →
    t.get? i = some v ∨ (v.origin = .user ∧ v.value = .null ∧ v.actuator = none)

theorem Store.AddsFresh.refl (t : Store) : t.AddsFresh t :=
  fun _ _ h => .inl h

theorem Store.AddsFresh.trans {t t' t'' : Store} (h : t.AddsFresh t') (h' : t'.AddsFresh t'') :
    t.AddsFresh t'' :=
  fun i v hv => (h' i v hv).elim (h i v) .inr

/-! ## Expressions -/

/-- From one state to another names are reached: afterwards they stand for something, and locals
    are added for none but them. -/
structure Site.Covers (site : Site) (reached : String → Prop) (s s' : Lowering) : Prop where
  kept : s.store.Extends site.trends s'.store
  fresh : s.store.AddsFresh s'.store
  added : ∀ scope n, s'.store.find? scope n ≠ none →
    s.store.find? scope n ≠ none ∨ (scope = .local_ site.program ∧ reached n)
  known : ∀ n, reached n → (site.names s').resolve? n ≠ none

namespace Site.Covers

variable {site : Site} {p q : String → Prop} {s s' s'' : Lowering}

theorem refl (hp : ∀ n, p n → (site.names s).resolve? n ≠ none) : site.Covers p s s :=
  ⟨.refl _ _, .refl _, fun _ _ h => .inl h, hp⟩

theorem trans (h : site.Covers p s s') (h' : site.Covers q s' s'') :
    site.Covers (fun n => p n ∨ q n) s s'' := by
  refine ⟨h.kept.trans h'.kept, h.fresh.trans h'.fresh, fun scope n hn => ?_, fun n hn => ?_⟩
  · rcases h'.added scope n hn with hbefore | ⟨hscope, hq⟩
    · exact (h.added scope n hbefore).imp_right fun ⟨hscope, hp⟩ => ⟨hscope, .inl hp⟩
    · exact .inr ⟨hscope, .inr hq⟩
  · rcases hn with hp | hq
    · have hsame := h'.kept.resolve?_eq (h.known n hp)
      exact fun hnone => h.known n hp (hsame.symm.trans hnone)
    · exact h'.known n hq

theorem congr (h : site.Covers p s s') (hpq : ∀ n, q n ↔ p n) : site.Covers q s s' :=
  ⟨h.kept, h.fresh, fun scope n hn => (h.added scope n hn).imp_right fun ⟨hscope, hp⟩ =>
    ⟨hscope, (hpq n).2 hp⟩, fun n hq => h.known n ((hpq n).1 hq)⟩

/-- A local is added for a name that stands for nothing. -/
theorem push {name : String} (h : (site.names s).resolve? name = none) {log : Log} :
    site.Covers (fun n => Text.sameName name n = true) s
      { s with store := s.store.push name (.local_ site.program) .user, log } := by
  refine ⟨.push h, fun i v hv => ?_, fun scope n hn => ?_, fun n hn => ?_⟩
  · dsimp only at hv
    rw [Store.get?_push] at hv
    split at hv
    · cases hv
      exact .inr ⟨rfl, rfl, rfl⟩
    · exact .inl hv
  · dsimp only at hn
    rw [Store.find?_push] at hn
    by_cases hfound : s.store.find? scope n = none
    · rw [hfound, Option.none_or] at hn
      split at hn
      · next hnew => exact .inr ⟨hnew.1.symm, hnew.2⟩
      · exact absurd rfl hn
    · exact .inl hfound
  · rw [← Naming.resolve?_congr _ hn]
    have hnew := Naming.resolve?_addLocal h
    exact fun hnone => Option.some_ne_none _ (hnew.symm.trans hnone)

end Site.Covers

/-- A computation reaches names, whatever it starts from. -/
def Lower.Reaches {α : Type} (site : Site) (reached : String → Prop) (x : Lower α) : Prop :=
  ∀ s, site.Covers reached s (x.run s).2

namespace Lower.Reaches

variable {α β : Type} {site : Site} {p q : String → Prop}

theorem pure (a : α) : Reaches site (fun _ => False) (Pure.pure a : Lower α) :=
  fun _ => .refl fun _ h => h.elim

theorem push (n : Node) : Reaches site (fun _ => False) (Lower.push n) :=
  fun _ => ⟨.refl _ _, .refl _, fun _ _ h => .inl h, fun _ h => h.elim⟩

theorem bind {x : Lower α} {f : α → Lower β} (hx : Reaches site p x)
    (hf : ∀ a, Reaches site q (f a)) : Reaches site (fun n => p n ∨ q n) (x >>= f) :=
  fun s => (hx s).trans (hf _ _)

theorem congr {x : Lower α} (h : Reaches site p x) (hpq : ∀ n, q n ↔ p n) : Reaches site q x :=
  fun s => (h s).congr hpq

/-- What follows may reach nothing more. -/
theorem andThen {x : Lower α} {f : α → Lower β} (hx : Reaches site p x)
    (hf : ∀ a, Reaches site (fun _ => False) (f a)) : Reaches site p (x >>= f) :=
  (hx.bind hf).congr fun _ => (or_false _).symm ▸ Iff.rfl

end Lower.Reaches

namespace Site

open Lower (Reaches)

theorem lowerName_reaches (site : Site) (name : String) (location : Location) :
    Reaches site (IsNamed [name]) (site.lowerName name location) := by
  intro s
  rw [site.run_lowerName]
  cases hname : (site.names s).resolve? name with
  | some r =>
    refine .refl fun n hn => ?_
    rw [← Naming.resolve?_congr _ (isNamed_singleton.1 hn), hname]
    exact Option.some_ne_none r
  | none => exact (Site.Covers.push hname).congr fun n => isNamed_singleton

mutual

/-- Compiling an expression reaches the names in it. -/
theorem lower_reaches (site : Site) : ∀ e : Expr, Reaches site (IsNamed e.names) (site.lower e)
  | .literal l => by
    rw [lower, Expr.names]
    exact (Reaches.pure _).congr fun n => iff_false_intro (isNamed_nil n)
  | .name name location => by
    rw [lower, Expr.names]
    exact site.lowerName_reaches name location
  | .negate e => by
    rw [lower, Expr.names]
    exact (site.lower_reaches e).andThen fun o => (Reaches.push _).andThen fun id => .pure _
  | .binary op a b => by
    rw [lower, Expr.names]
    refine Reaches.congr (.bind (site.lower_reaches a) fun left => ?_) fun n => isNamed_append
    exact (site.lower_reaches b).andThen fun right => (Reaches.push _).andThen fun id => .pure _
  | .call f args location => by
    rw [lower, Expr.names]
    exact (site.lowerArguments_reaches f args).andThen fun os =>
      (Reaches.push _).andThen fun id => .pure _

theorem lowerArguments_reaches (site : Site) (f : Builtin) : ∀ args : List Expr,
    Reaches site (IsNamed (Expr.namesOfAll args)) (site.lowerArguments f args)
  | [] => by
    rw [lowerArguments, Expr.namesOfAll]
    exact (Reaches.pure _).congr fun n => iff_false_intro (isNamed_nil n)
  | arg :: rest => by
    rw [lowerArguments, Expr.namesOfAll]
    have hrest : ∀ first : Operand, Reaches site (IsNamed (Expr.namesOfAll rest)) (do
        return first :: (← site.lowerAll rest)) :=
      fun first => (site.lowerAll_reaches rest).andThen fun os => .pure _
    have htrend := site.trendArgument?_eq f arg
    split
    · next id hid =>
      -- the name of a trend stands for something
      rw [hid] at htrend
      obtain ⟨name, hname, hnamed⟩ := Option.bind_eq_some_iff.1 htrend.symm
      obtain ⟨location, rfl⟩ : ∃ location, arg = .name name location := by
        unfold Builtin.trendName? at hname
        split at hname
        · cases hname
          exact ⟨_, rfl⟩
        · cases hname
      have hfirst : Reaches site (IsNamed (Expr.name name location).names)
          (pure (.trendRef id) : Lower Operand) := by
        refine fun s => .refl fun n hn => ?_
        rw [Expr.names] at hn
        rw [← Naming.resolve?_congr _ (isNamed_singleton.1 hn)]
        intro hnone
        have hnothing := (Naming.resolve?_eq_none_iff.1 hnone).2
        exact Option.some_ne_none id (hnamed.symm.trans hnothing)
      exact (hfirst.bind hrest).congr fun n => isNamed_append
    · exact ((site.lower_reaches arg).bind hrest).congr fun n => isNamed_append

theorem lowerAll_reaches (site : Site) : ∀ es : List Expr,
    Reaches site (IsNamed (Expr.namesOfAll es)) (site.lowerAll es)
  | [] => by
    rw [lowerAll, Expr.namesOfAll]
    exact (Reaches.pure _).congr fun n => iff_false_intro (isNamed_nil n)
  | e :: rest => by
    rw [lowerAll, Expr.namesOfAll]
    refine Reaches.congr (.bind (site.lower_reaches e) fun first => ?_) fun n => isNamed_append
    exact (site.lowerAll_reaches rest).andThen fun os => .pure _

end

theorem lowerWhole_reaches (site : Site) (e : Expr) :
    Reaches site (IsNamed e.names) (site.lowerWhole e) := by
  refine (site.lower_reaches e).andThen fun o => ?_
  split
  · exact .pure _
  · exact .push _

end Site

/-! ## Lines -/

theorem Text.sameName_self (s : String) : Text.sameName s s = true := by
  simp [Text.sameName]

/-- A name that stands for something may be assigned unless there is a problem with that. -/
theorem Naming.assignable_iff {names : Naming} {s : String} (h : names.resolve? s ≠ none)
    (title : String) (line : Nat) :
    names.Assignable s ↔ names.assignmentProblem? title s line = none := by
  unfold Assignable assignmentProblem?
  cases hr : names.resolve? s with
  | none => exact absurd hr h
  | some r =>
    cases r with
    | variableAt id =>
      cases hprotected : names.store.isProtected id <;> simp [hprotected]
    | trendAt id => simp

/-- The problem of what is refused. -/
def problemOf? {α : Type} : Except ModelProblem α → Option ModelProblem
  | .ok _ => none
  | .error problem => some problem

namespace Site

variable {site : Site} {s s' : Lowering}

/-- What is wrong with an instruction. -/
def problem? (site : Site) (names : Naming) (line : Nat) :
    Instruction String Expr String → Option ModelProblem
  | .set target _ => names.assignmentProblem? site.name target line
  | .run name => problemOf? (site.lowerCallee name line)
  | _ => none

/-- The target of an assignment is reached, and refused if there is a problem with it. -/
theorem lowerTarget_covers {name : String} {line : Nat} {r : Except ModelProblem VariableId}
    (h : (site.lowerTarget name line).run s = (r, s')) :
    site.Covers (fun n => Text.sameName name n = true) s s'
      ∧ problemOf? r = (site.names s').assignmentProblem? site.name name line := by
  have hknown : ∀ {r : Referent}, (site.names s).resolve? name = some r →
      site.Covers (fun n => Text.sameName name n = true) s s := by
    refine fun {r} hr => .refl fun n hn => ?_
    rw [← Naming.resolve?_congr _ hn, hr]
    exact Option.some_ne_none r
  rw [site.run_lowerTarget] at h
  cases hname : (site.names s).resolve? name with
  | some target =>
    rw [hname] at h
    cases target with
    | variableAt id =>
      cases h
      refine ⟨hknown hname, ?_⟩
      rw [Naming.assignmentProblem?, hname]
      show problemOf? (if s.store.isProtected id then _ else _)
        = if s.store.isProtected id then _ else _
      cases s.store.isProtected id <;> rfl
    | trendAt id =>
      cases h
      refine ⟨hknown hname, ?_⟩
      rw [Naming.assignmentProblem?, hname]
      rfl
  | none =>
    rw [hname] at h
    cases h
    refine ⟨.push hname, ?_⟩
    have hnew := Naming.resolve?_addLocal hname
    -- the new local may be assigned
    have hfree : (s.store.push name (.local_ site.program) .user).isProtected s.store.size
        = false := by
      rw [Store.isProtected_eq, Store.origin?, Store.get?_push, if_pos rfl]
      rfl
    have hassignable : (site.names { s with
        store := s.store.push name (.local_ site.program) .user }).Assignable name :=
      ⟨s.store.size, hnew, hfree⟩
    refine ((Naming.assignable_iff ?_ site.name line).1 hassignable).symm
    exact fun hnone => Option.some_ne_none _ (hnew.symm.trans hnone)

/-- Compiling an instruction reaches the names that the instruction reaches; it is refused if there
    is a problem with it. -/
theorem lowerInstruction_covers {line : Nat} {i : Instruction String Expr String}
    {r : Except ModelProblem (Instruction VariableId NodeId ProgramId)}
    (h : (site.lowerInstruction line i).run s = (r, s')) :
    site.Covers (fun n => i.Reaches (site.names s') n) s s'
      ∧ problemOf? r = site.problem? (site.names s') line i := by
  have hguard : ∀ {e : Expr} {make : NodeId → Instruction VariableId NodeId ProgramId},
      (do return .ok (make (← site.lowerWhole e)) :
        Lower (Except ModelProblem (Instruction VariableId NodeId ProgramId))).run s = (r, s') →
      site.Covers (IsNamed e.names) s s' ∧ problemOf? r = none := by
    intro e make h
    have hcovers := site.lowerWhole_reaches e s
    cases h
    exact ⟨hcovers, rfl⟩
  have hplain : (∀ n, ¬ i.Reaches (site.names s) n) → s = s' →
      site.Covers (fun n => i.Reaches (site.names s') n) s s' := by
    rintro hnone rfl
    exact .refl fun n hn => absurd hn (hnone n)
  cases i with
  | set name value =>
    rw [lowerInstruction] at h
    obtain ⟨target, s₁, htarget, h⟩ := Lower.bind_run h
    obtain ⟨hfirst, hproblem⟩ := lowerTarget_covers htarget
    have hknown : (site.names s₁).resolve? name ≠ none :=
      hfirst.known name (Text.sameName_self name)
    cases target with
    | error problem =>
      cases h
      refine ⟨hfirst.congr fun n => ⟨fun hn => ?_, .target⟩, hproblem⟩
      cases hn with
      | target hsame => exact hsame
      | value hassignable hnamed =>
        have hnone := (Naming.assignable_iff hknown site.name line).1 hassignable
        exact absurd (hproblem.trans hnone) (Option.some_ne_none problem)
    | ok id =>
      obtain ⟨n, s₂, hvalue, h⟩ := Lower.bind_run h
      cases h
      have hsecond := site.lowerWhole_reaches value s₁
      rw [hvalue] at hsecond
      have hsame := hsecond.kept.assignmentProblem?_eq hknown site.name line
      have hassignable : (site.names s').Assignable name := by
        refine (hsecond.kept.assignable_iff hknown).2 ?_
        exact (Naming.assignable_iff hknown site.name line).2 hproblem.symm
      refine ⟨(hfirst.trans hsecond).congr fun n => ⟨fun hn => ?_, fun hn => ?_⟩,
        hproblem.trans hsame.symm⟩
      · cases hn with
        | target hsame => exact .inl hsame
        | value _ hnamed => exact .inr hnamed
      · exact hn.elim .target (.value hassignable)
  | run name =>
    cases h
    refine ⟨hplain (fun n hn => by cases hn) rfl, ?_⟩
    show problemOf? ((site.lowerCallee name line).map _) = problemOf? (site.lowerCallee name line)
    cases site.lowerCallee name line <;> rfl
  | return_ =>
    cases h
    exact ⟨hplain (fun n hn => by cases hn) rfl, rfl⟩
  | if_ condition next =>
    obtain ⟨hcovers, hnone⟩ := hguard h
    refine ⟨hcovers.congr fun n => ⟨fun hn => ?_, .if_⟩, hnone⟩
    cases hn with
    | if_ hnamed => exact hnamed
  | elseIf condition next stop =>
    obtain ⟨hcovers, hnone⟩ := hguard h
    refine ⟨hcovers.congr fun n => ⟨fun hn => ?_, .elseIf⟩, hnone⟩
    cases hn with
    | elseIf hnamed => exact hnamed
  | else_ stop =>
    cases h
    exact ⟨hplain (fun n hn => by cases hn) rfl, rfl⟩
  | endIf =>
    cases h
    exact ⟨hplain (fun n hn => by cases hn) rfl, rfl⟩
  | while_ condition stop =>
    obtain ⟨hcovers, hnone⟩ := hguard h
    refine ⟨hcovers.congr fun n => ⟨fun hn => ?_, .while_⟩, hnone⟩
    cases hn with
    | while_ hnamed => exact hnamed
  | endWhile start =>
    cases h
    exact ⟨hplain (fun n hn => by cases hn) rfl, rfl⟩

end Site

/-! ## Programs -/

section Later

variable {trends : Array Trend} {t t' : Store} {program : ProgramId}

/-- An instruction whose target stands for something reaches the same names later. -/
theorem Instruction.reaches_iff (h : t.Extends trends t') {i : Instruction String Expr String}
    (hknown : ∀ n, i.Reaches ⟨t, trends, program⟩ n →
      (Naming.mk t trends program).resolve? n ≠ none) (n : String) :
    i.Reaches ⟨t', trends, program⟩ n ↔ i.Reaches ⟨t, trends, program⟩ n := by
  have hassignable : ∀ {target value}, i = .set target value →
      ((Naming.mk t' trends program).Assignable target
        ↔ (Naming.mk t trends program).Assignable target) := by
    rintro target value rfl
    exact h.assignable_iff (hknown target (.target (Text.sameName_self target)))
  constructor
  · intro hn
    cases hn with
    | target hsame => exact .target hsame
    | value hfree hnamed => exact .value ((hassignable rfl).1 hfree) hnamed
    | if_ hnamed => exact .if_ hnamed
    | elseIf hnamed => exact .elseIf hnamed
    | while_ hnamed => exact .while_ hnamed
  · intro hn
    cases hn with
    | target hsame => exact .target hsame
    | value hfree hnamed => exact .value ((hassignable rfl).2 hfree) hnamed
    | if_ hnamed => exact .if_ hnamed
    | elseIf hnamed => exact .elseIf hnamed
    | while_ hnamed => exact .while_ hnamed

/-- What is wrong with an instruction whose target stands for something is wrong later as well. -/
theorem Site.problem?_eq (h : t.Extends trends t') (site : Site) (line : Nat)
    {i : Instruction String Expr String}
    (hknown : ∀ n, i.Reaches ⟨t, trends, program⟩ n →
      (Naming.mk t trends program).resolve? n ≠ none) :
    site.problem? ⟨t', trends, program⟩ line i = site.problem? ⟨t, trends, program⟩ line i := by
  cases i with
  | set target value =>
    exact h.assignmentProblem?_eq (hknown target (.target (Text.sameName_self target))) _ _
  | _ => rfl

/-- What is wrong with a source. -/
def Site.problems (site : Site) (names : Naming) (source : String) : List ModelProblem :=
  match parseCode source with
  | .error e => [.parse site.name e]
  | .ok lines =>
    lines.toList.filterMap fun line => site.problem? names line.location.line line.instruction

/-- A source whose names stand for something reaches the same names later. -/
theorem Naming.reaches_iff (h : t.Extends trends t') {source : String}
    (hknown : ∀ n, (Naming.mk t trends program).Reaches source n →
      (Naming.mk t trends program).resolve? n ≠ none) (n : String) :
    (Naming.mk t' trends program).Reaches source n
      ↔ (Naming.mk t trends program).Reaches source n := by
  refine exists_congr fun lines => and_congr_right fun hparse => ?_
  refine exists_congr fun line => and_congr_right fun hline => ?_
  exact Instruction.reaches_iff h (fun n hn => hknown n ⟨lines, hparse, line, hline, hn⟩) n

theorem Site.problems_eq (h : t.Extends trends t') (site : Site) {source : String}
    (hknown : ∀ n, (Naming.mk t trends program).Reaches source n →
      (Naming.mk t trends program).resolve? n ≠ none) :
    site.problems ⟨t', trends, program⟩ source = site.problems ⟨t, trends, program⟩ source := by
  unfold Site.problems
  cases hparse : parseCode source with
  | error e => rfl
  | ok lines =>
    refine List.filterMap_congr fun line hline => ?_
    exact site.problem?_eq h _ fun n hn => hknown n ⟨lines, hparse, line, hline, hn⟩

end Later

namespace Site

variable {site : Site} {s s' : Lowering}

/-- Compiling lines reaches the names that one of them reaches. -/
theorem lowerLines_covers {source : List SourceLine} {lines : List ReadyLine}
    {problems : List ModelProblem}
    (h : (site.lowerLines source).run s = ((lines, problems), s')) :
    site.Covers (fun n => ∃ line ∈ source, line.instruction.Reaches (site.names s') n) s s'
      ∧ problems = source.filterMap fun line =>
          site.problem? (site.names s') line.location.line line.instruction := by
  induction source generalizing s lines problems with
  | nil =>
    cases h
    exact ⟨.refl fun n hn => by simp at hn, rfl⟩
  | cons line rest ih =>
    rw [lowerLines] at h
    obtain ⟨result, s₁, hline, h⟩ := Lower.bind_run h
    obtain ⟨⟨lines', problems'⟩, s₂, hrest, h⟩ := Lower.bind_run h
    have hlast : s₂ = s' := by cases result <;> exact (Lower.pure_run h).2
    subst hlast
    obtain ⟨hfirst, hproblem⟩ := lowerInstruction_covers hline
    obtain ⟨hothers, hproblems⟩ := ih hrest
    -- what comes after the line does not change what it reached
    have hsame := site.problem?_eq hothers.kept line.location.line hfirst.known
    refine ⟨(hfirst.trans hothers).congr fun n => ?_, ?_⟩
    · rw [List.exists_mem_cons_iff]
      exact or_congr_left (Instruction.reaches_iff hothers.kept hfirst.known n)
    · have hcons : site.problem? (site.names s₂) line.location.line line.instruction
          = problemOf? result := hsame.trans hproblem.symm
      rw [List.filterMap_cons, hcons, ← hproblems]
      cases result with
      | ok instruction =>
        cases h
        rfl
      | error problem =>
        cases h
        rfl

/-- Compiling a source reaches the names that the source reaches. -/
theorem compile_covers {source : String} {lines : Array ReadyLine}
    {problems : List ModelProblem}
    (h : (site.compile source).run s = ((lines, problems), s')) :
    site.Covers (fun n => (site.names s').Reaches source n) s s'
      ∧ problems = site.problems (site.names s') source := by
  rw [compile] at h
  unfold Naming.Reaches Site.problems
  cases hparse : parseCode source with
  | error e =>
    rw [hparse] at h
    cases h
    refine ⟨.refl fun n hreaches => ?_, rfl⟩
    obtain ⟨lines, hlines, -⟩ := hreaches
    cases hlines
  | ok parsed =>
    rw [hparse] at h
    obtain ⟨⟨compiled, found⟩, s₁, hlines, h⟩ := Lower.bind_run h
    obtain ⟨hcovers, hproblems⟩ := lowerLines_covers hlines
    have hlast : s₁ = s' ∧ found = problems := by
      dsimp only at h
      split at h
      · next hempty =>
        cases h
        exact ⟨rfl, List.isEmpty_iff.1 hempty⟩
      · cases h
        exact ⟨rfl, rfl⟩
    obtain ⟨rfl, rfl⟩ := hlast
    refine ⟨hcovers.congr fun n => ⟨?_, fun hn => ⟨parsed, rfl, hn⟩⟩, hproblems⟩
    rintro ⟨lines, hlines, hn⟩
    cases hlines
    exact hn

end Site

namespace Controller

/-- What is wrong with programs, from that with a given position on. -/
def problemsIn (trends : Catalog Trend.foldedName) (all : Catalog Program.foldedName)
    (store : Store) : ProgramId → List Program → List ModelProblem
  | _, [] => []
  | id, p :: rest =>
    Site.problems ⟨trends, all, id, p.name⟩ ⟨store, trends.entries, id⟩ p.source
      ++ problemsIn trends all store (id + 1) rest

/-- What compiling leaves of some programs: names stay what they were, locals are added for names
    that a program reaches, and all of these stand for something. -/
structure Covered (trends : Array Trend) (first : ProgramId) (list : List Program) (t t' : Store) :
    Prop where
  kept : t.Extends trends t'
  fresh : t.AddsFresh t'
  added : ∀ scope n, t'.find? scope n ≠ none → t.find? scope n ≠ none
    ∨ ∃ k p, list[k]? = some p ∧ scope = .local_ (first + k)
        ∧ (Naming.mk t' trends (first + k)).Reaches p.source n
  known : ∀ k p n, list[k]? = some p → (Naming.mk t' trends (first + k)).Reaches p.source n →
    (Naming.mk t' trends (first + k)).resolve? n ≠ none

theorem compilePrograms_covered {trends : Catalog Trend.foldedName}
    {all : Catalog Program.foldedName} {list : List Program} {first : ProgramId} {s s' : Lowering}
    {programs : List Program} {problems : List ModelProblem}
    (h : (compilePrograms trends all first list).run s = ((programs, problems), s')) :
    Covered trends.entries first list s.store s'.store
      ∧ problems = problemsIn trends all s'.store first list := by
  induction list generalizing first s programs problems with
  | nil =>
    cases h
    exact ⟨⟨.refl _ _, .refl _, fun _ _ hn => .inl hn, fun _ _ _ hp => by cases hp⟩, rfl⟩
  | cons p rest ih =>
    rw [compilePrograms] at h
    obtain ⟨⟨lines, found⟩, s₁, hone, h⟩ := Lower.bind_run h
    obtain ⟨⟨programs', others⟩, s₂, hrest, h⟩ := Lower.bind_run h
    cases h
    obtain ⟨hfirst, hfound⟩ := Site.compile_covers hone
    obtain ⟨hothers, hmore⟩ := ih hrest
    -- what comes after the first program does not change what it reached
    have hreach := Naming.reaches_iff hothers.kept hfirst.known
    have hsame := Site.problems_eq hothers.kept ⟨trends, all, first, p.name⟩ hfirst.known
    have hshift : ∀ k : Nat, first + (k + 1) = first + 1 + k :=
      fun k => Nat.add_right_comm first k 1
    refine ⟨⟨hfirst.kept.trans hothers.kept, hfirst.fresh.trans hothers.fresh,
      fun scope n hn => ?_, fun k q n hq hn => ?_⟩, ?_⟩
    · rcases hothers.added scope n hn with hbefore | ⟨k, q, hq, hscope, hn⟩
      · refine (hfirst.added scope n hbefore).imp_right fun hadded => ?_
        exact ⟨0, p, rfl, hadded.1, (hreach n).2 hadded.2⟩
      · refine .inr ⟨k + 1, q, hq, ?_, ?_⟩
        · rw [hshift]
          exact hscope
        · rw [hshift]
          exact hn
    · cases k with
      | zero =>
        cases hq
        have hknown := hfirst.known n ((hreach n).1 hn)
        rw [Nat.add_zero, hothers.kept.resolve?_eq hknown]
        exact hknown
      | succ k =>
        rw [hshift] at hn ⊢
        exact hothers.known k q n hq hn
    · rw [problemsIn, hsame, hmore, hfound]
      rfl

/-- The names of a program of a controller. -/
def names (c : Controller) (program : ProgramId) : Naming :=
  ⟨c.machine.store, c.image.trends, program⟩

/-- Compiling leaves what the sources call for. -/
theorem compile_covered (c : Controller) :
    Covered c.image.trends 0 c.image.programs.toList c.machine.store c.compile.machine.store :=
  (compilePrograms_covered (s := ⟨c.machine.store, c.machine.log, #[]⟩) rfl).1

/-- What compiling finds can be read off the names as they are afterwards. -/
theorem found_eq (c : Controller) :
    c.found = problemsIn c.image.trendCatalog c.image.programCatalog c.compile.machine.store 0
      c.image.programs.toList :=
  (compilePrograms_covered rfl).2

end Controller

end Erl
