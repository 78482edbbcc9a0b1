/-
  Erl.Proofs.Machine.Renaming

  Programs do not see the positions of their variables.

  Two machines may keep the same variables at different positions.  If every name stands for
  variables that correspond, a tree runs on both alike: it ends in the same way, draws the same
  random numbers, and leaves variables that correspond with the same values.  What one of the
  machines keeps besides makes no difference, and neither do the messages that it has recorded.
-/

import Mathlib.Data.List.Forall2
import Erl.Proofs.Machine.Structured

namespace Erl

/-! ## Corresponding variables -/

/-- Which variables of two machines correspond: each to at most one. -/
structure Pairing where
  rel : VariableId → VariableId → Prop
  unique : ∀ {i j i' j' : VariableId}, rel i j → rel i' j' → (i = i' ↔ j = j')

/-- Variables that correspond exist and have the same value. -/
structure Store.Agrees (R : Pairing) (t t' : Store) : Prop where
  left : ∀ {i j : VariableId}, R.rel i j → i < t.size
  right : ∀ {i j : VariableId}, R.rel i j → j < t'.size
  value : ∀ {i j : VariableId}, R.rel i j → t.value i = t'.value j

/-- An assignment to variables that correspond. -/
theorem Store.Agrees.set {R : Pairing} {t t' : Store} (h : t.Agrees R t') {i j : VariableId}
    (hij : R.rel i j) (v : Value) : (t.set i v).Agrees R (t'.set j v) := by
  refine ⟨fun hrel => ?_, fun hrel => ?_, fun {i' j'} hrel => ?_⟩
  · rw [Store.size_set]
    exact h.left hrel
  · rw [Store.size_set]
    exact h.right hrel
  · rw [Store.value_set, Store.value_set]
    by_cases hi : i = i'
    · have hj : j = j' := (R.unique hij hrel).1 hi
      rw [if_pos ⟨hi, h.left hrel⟩, if_pos ⟨hj, h.right hrel⟩]
    · have hj : j ≠ j' := fun hj => hi ((R.unique hij hrel).2 hj)
      rw [if_neg fun hset => hi hset.1, if_neg fun hset => hj hset.1]
      exact h.value hrel

/-- Two machines agree on the variables that correspond and on the random numbers to come. -/
structure Machine.Agrees (R : Pairing) (m m' : Machine) : Prop where
  store : m.store.Agrees R m'.store
  generator : m.generator = m'.generator

/-- Two ends of a computation on machines that agree: both with the same value, or both with the
    same interrupt. -/
inductive Exec.EndsAlike {α : Type} (R : Pairing) : EStateM.Result Interrupt Machine α →
    EStateM.Result Interrupt Machine α → Prop where
  | ok (a : α) {m m' : Machine} : m.Agrees R m' → EndsAlike R (.ok a m) (.ok a m')
  | error (e : Interrupt) {m m' : Machine} : m.Agrees R m' → EndsAlike R (.error e m) (.error e m')

/-- Two computations that end alike on machines that agree. -/
def Exec.Alike {α : Type} (R : Pairing) (x y : Exec α) : Prop :=
  ∀ m m' : Machine, m.Agrees R m' → EndsAlike R (x m) (y m')

namespace Exec.Alike

variable {α β : Type} {R : Pairing}

theorem pure (a : α) : Alike R (Pure.pure a) (Pure.pure a) :=
  fun _ _ h => .ok a h

theorem throw (e : Interrupt) : Alike R (throw e : Exec α) (throw e) :=
  fun _ _ h => .error e h

theorem bind {x y : Exec α} {f g : α → Exec β} (hx : Alike R x y) (hf : ∀ a, Alike R (f a) (g a)) :
    Alike R (x >>= f) (y >>= g) := by
  intro m m' h
  have hends := hx m m' h
  generalize hxm : x m = r at hends
  generalize hym : y m' = r' at hends
  cases hends with
  | ok a hnext =>
    rw [Exec.bind_ok hxm, Exec.bind_ok hym]
    exact hf a _ _ hnext
  | error e hnext =>
    rw [Exec.bind_error hxm, Exec.bind_error hym]
    exact .error e hnext

/-- What a computation does with the machine that it starts from. -/
theorem getBind {f g : Machine → Exec β}
    (hf : ∀ m m' : Machine, m.Agrees R m' → EndsAlike R (f m m) (g m' m')) :
    Alike R (MonadState.get >>= f) (MonadState.get >>= g) :=
  hf

theorem modify {f g : Machine → Machine}
    (hf : ∀ m m' : Machine, m.Agrees R m' → (f m).Agrees R (g m')) :
    Alike R (modify f : Exec PUnit) (modify g) :=
  fun m m' h => .ok PUnit.unit (hf m m' h)

/-- Messages make no difference. -/
theorem record (severity : Severity) (program message : String) :
    Alike R (Exec.record severity program message) (Exec.record severity program message) :=
  modify fun _ _ h => ⟨h.store, h.generator⟩

/-- A choice that is made alike. -/
theorem ite {c : Prop} [Decidable c] {x y x' y' : Exec α} (hx : Alike R x x')
    (hy : Alike R y y') : Alike R (if c then x else y) (if c then x' else y') := by
  split
  · exact hx
  · exact hy

end Exec.Alike

/-! ## Models -/

/-- Two models that programs cannot tell apart, whatever their nodes and lines are. -/
structure Image.Alike (img img' : Image) : Prop where
  settings : img.settings = img'.settings
  routines : img.routines = img'.routines
  curves : img.curves = img'.curves
  trends : List.Forall₂ (fun t t' : Trend => t.name = t'.name ∧ t.history = t'.history)
    img.trends.toList img'.trends.toList
  programs : ∀ id : ProgramId,
    (img.programs[id]?).map Program.name = (img'.programs[id]?).map Program.name
  subroutines : ∀ name : String,
    subroutineNamed? img.programs name = subroutineNamed? img'.programs name

theorem map_eq_of_forall₂ {α β γ : Type} {R : α → β → Prop} {xs : List α} {ys : List β}
    (h : List.Forall₂ R xs ys) {f : α → γ} {g : β → γ} (hfg : ∀ ⦃x y⦄, R x y → f x = g y) :
    xs.map f = ys.map g :=
  List.forall₂_eq_eq_eq ▸ List.rel_map hfg h

section Expressions

variable {R : Pairing} {img img' : Image} (h : img.Alike img')
include h

/-- A trend is the same as far as its name and its samples go. -/
theorem Image.Alike.trend (id : TrendId) :
    (img.trends[id]?).map (fun t => (t.name, t.history))
      = (img'.trends[id]?).map fun t => (t.name, t.history) := by
  have heq : img.trends.toList.map (fun t => (t.name, t.history))
      = img'.trends.toList.map fun t => (t.name, t.history) :=
    map_eq_of_forall₂ h.trends fun _ _ hsame => Prod.ext hsame.1 hsame.2
  have hid := congrArg (fun list => list[id]?) heq
  simpa only [List.getElem?_map, Array.getElem?_toList] using hid

theorem callTrend_eq (f : TrendFunction) (args : List Value) :
    callTrend img f args = callTrend img' f args := by
  unfold callTrend
  cases args with
  | nil => rfl
  | cons v rest =>
    cases v with
    | trendRef id =>
      have htrend := h.trend id
      dsimp only
      rw [h.settings]
      cases hleft : img.trends[id]? with
      | none =>
        cases hright : img'.trends[id]? with
        | none => rfl
        | some t' =>
          rw [hleft, hright] at htrend
          cases htrend
      | some t =>
        cases hright : img'.trends[id]? with
        | none =>
          rw [hleft, hright] at htrend
          cases htrend
        | some t' =>
          rw [hleft, hright] at htrend
          obtain ⟨hname, hhistory⟩ := Prod.mk.inj (Option.some.inj htrend)
          dsimp only
          rw [hname, hhistory]
    | null => rfl
    | number x => rfl
    | text s => rfl
    | array => rfl
    | variableRef id => rfl
    | error message => rfl

theorem callCurve_eq (args : List Value) : callCurve img args = callCurve img' args := by
  unfold callCurve
  rw [h.curves]

theorem callRoutine_alike (f : Builtin) (args : List Value) :
    (callRoutine img f args).Alike R (callRoutine img' f args) := by
  unfold callRoutine
  rw [h.routines]
  split
  · exact .pure _
  · next xs _ =>
    refine .getBind fun m m' hm => ?_
    rw [hm.generator]
    -- both draw from the same generator and go on with the same one
    generalize img'.routines f xs m'.generator = r
    obtain ⟨reply, generator⟩ := r
    have hdrawn : Machine.Agrees R { m with generator } { m' with generator } := ⟨hm.store, rfl⟩
    cases reply with
    | value x => exact .ok _ hdrawn
    | refused e => exact .ok _ hdrawn
    | breakdown => exact .error _ hdrawn

omit h in
theorem callMessage_alike (program : String) (f : MessageFunction) (args : List Value) :
    (callMessage program f args).Alike R (callMessage program f args) := by
  unfold callMessage
  cases f with
  | fatalHalt => exact .bind (.record _ _ _) fun _ => .throw _
  | severe => exact .bind (.record _ _ _) fun _ => .pure _
  | warning => exact .bind (.record _ _ _) fun _ => .pure _

theorem applyBuiltin_alike (program : String) (f : Builtin) (args : List Value) :
    (applyBuiltin img program f args).Alike R (applyBuiltin img' program f args) := by
  cases f with
  | math f => exact callRoutine_alike h _ _
  | air f => exact callRoutine_alike h _ _
  | message f => exact callMessage_alike program f args
  | trend f =>
    rw [applyBuiltin, applyBuiltin, callTrend_eq h]
    exact .pure _
  | curveValue =>
    rw [applyBuiltin, applyBuiltin, callCurve_eq h]
    exact .pure _

end Expressions

/-! ## Names -/

/-- A name stands for variables that correspond, for the same trend, or for nothing. -/
inductive Referent.Alike (R : Pairing) : Option Referent → Option Referent → Prop where
  | variableAt {i j : VariableId} : R.rel i j →
      Alike R (some (.variableAt i)) (some (.variableAt j))
  | trendAt (id : TrendId) : Alike R (some (.trendAt id)) (some (.trendAt id))
  | nothing : Alike R none none

/-- Names are alike if each stands for the same as far as programs can tell. -/
structure Naming.Alike (R : Pairing) (names names' : Naming) : Prop where
  resolve? : ∀ name, Referent.Alike R (names.resolve? name) (names'.resolve? name)
  trend : ∀ name, trendNamed? names.trends name = trendNamed? names'.trends name

section Names

variable {R : Pairing} {names names' : Naming}

theorem Referent.Alike.read {r r' : Option Referent} (h : Referent.Alike R r r') :
    (Referent.read r).Alike R (Referent.read r') := by
  cases h with
  | variableAt hij =>
    refine .getBind fun m m' hm => ?_
    show Exec.EndsAlike R (.ok _ m) (.ok _ m')
    rw [hm.store.value hij]
    exact .ok _ hm
  | trendAt id => exact .pure _
  | nothing => exact .pure _

theorem Naming.Alike.resolveTrend? (h : names.Alike R names') (name : String) :
    Referent.Alike R (names.resolveTrend? name) (names'.resolveTrend? name) := by
  unfold Naming.resolveTrend?
  rw [h.trend]
  cases trendNamed? names'.trends name with
  | some id => exact .trendAt id
  | none => exact h.resolve? name

end Names

/-! ## Meanings -/

section Meanings

variable {R : Pairing} {img img' : Image} {names names' : Naming}

mutual

theorem Expr.meaning_alike (h : img.Alike img') (hnames : names.Alike R names') (title : String) :
    ∀ e : Expr, (e.meaning img names title).Alike R (e.meaning img' names' title)
  | .literal l => by
    rw [Expr.meaning, Expr.meaning]
    exact .pure _
  | .name s location => by
    rw [Expr.meaning, Expr.meaning]
    exact (hnames.resolve? s).read
  | .negate e => by
    rw [Expr.meaning, Expr.meaning]
    refine .bind (e.meaning_alike h hnames title) fun v => ?_
    exact .ite (.pure _) (.pure _)
  | .binary op a b => by
    rw [Expr.meaning, Expr.meaning]
    refine .bind (a.meaning_alike h hnames title) fun x => .ite (.pure _) ?_
    refine .bind (b.meaning_alike h hnames title) fun y => .ite (.pure _) ?_
    exact .pure _
  | .call f args location => by
    rw [Expr.meaning, Expr.meaning]
    refine .bind (Expr.argumentValues_alike h hnames title f args) fun r => ?_
    cases r with
    | error v => exact .pure _
    | ok vs => exact applyBuiltin_alike h title f vs

theorem Expr.argumentValues_alike (h : img.Alike img') (hnames : names.Alike R names')
    (title : String) (f : Builtin) : ∀ args : List Expr,
    (Expr.argumentValues img names title f args).Alike R
      (Expr.argumentValues img' names' title f args)
  | [] => by
    rw [Expr.argumentValues, Expr.argumentValues]
    exact .pure _
  | arg :: rest => by
    rw [Expr.argumentValues, Expr.argumentValues]
    cases f.trendName? arg with
    | some s =>
      refine .bind (hnames.resolveTrend? s).read fun v => .ite (.pure _) ?_
      refine .bind (Expr.allValues_alike h hnames title rest) fun r => ?_
      cases r <;> exact .pure _
    | none =>
      refine .bind (arg.meaning_alike h hnames title) fun v => .ite (.pure _) ?_
      refine .bind (Expr.allValues_alike h hnames title rest) fun r => ?_
      cases r <;> exact .pure _

theorem Expr.allValues_alike (h : img.Alike img') (hnames : names.Alike R names')
    (title : String) : ∀ es : List Expr,
    (Expr.allValues img names title es).Alike R (Expr.allValues img' names' title es)
  | [] => by
    rw [Expr.allValues, Expr.allValues]
    exact .pure _
  | e :: rest => by
    rw [Expr.allValues, Expr.allValues]
    refine .bind (e.meaning_alike h hnames title) fun v => .ite (.pure _) ?_
    refine .bind (Expr.allValues_alike h hnames title rest) fun r => ?_
    cases r <;> exact .pure _

end

end Meanings

/-! ## Trees -/

/-- Two invocations that programs cannot tell apart. -/
structure Frame.Alike (R : Pairing) (f g : Frame) : Prop where
  img : f.img.Alike g.img
  names : f.names.Alike R g.names
  title : f.title = g.title
  call : Option.Rel (fun call call' => ∀ id, (call id : Exec Ending).Alike R (call' id))
    f.call g.call

section Trees

variable {R : Pairing} {f g : Frame}

namespace Frame.Alike

theorem report (h : f.Alike R g) (mark : Mark) (v : Value) :
    (f.report mark v).Alike R (g.report mark v) := by
  unfold Frame.report
  rw [h.title, h.img.settings]
  split
  · exact .ite (.record _ _ _) (.pure _)
  · exact .pure _

theorem note (h : f.Alike R g) (mark : Mark) (v : Option Value) :
    (f.note mark v).Alike R (g.note mark v) := by
  unfold Frame.note
  rw [h.title, h.img.settings]
  exact .ite (.modify fun _ _ hm => ⟨hm.store, hm.generator⟩) (.pure _)

theorem value (h : f.Alike R g) (mark : Mark) (e : Expr) :
    (f.value mark e).Alike R (g.value mark e) := by
  unfold Frame.value
  rw [h.title]
  refine .bind (e.meaning_alike h.img h.names g.title) fun v => ?_
  exact .bind (h.report mark v) fun _ => .bind (h.note mark _) fun _ => .pure _

theorem assign (h : f.Alike R g) (name : String) (v : Value) :
    (f.assign name v).Alike R (g.assign name v) := by
  unfold Frame.assign
  have hname := h.names.resolve? name
  generalize f.names.resolve? name = r at hname
  generalize g.names.resolve? name = r' at hname
  cases hname with
  | variableAt hij => exact .modify fun _ _ hm => ⟨hm.store.set hij v, hm.generator⟩
  | trendAt id => exact .pure _
  | nothing => exact .pure _

theorem runSubroutine (h : f.Alike R g) (name : String) :
    (f.runSubroutine name).Alike R (g.runSubroutine name) := by
  unfold Frame.runSubroutine
  rw [h.title, h.img.settings, h.img.subroutines]
  have hcall := h.call
  generalize f.call = call at hcall
  generalize g.call = call' at hcall
  cases hcall with
  | some hcall =>
    cases subroutineNamed? g.img.programs name with
    | some id => exact hcall id
    | none => exact .pure _
  | none => exact .bind (.record _ _ _) fun _ => .pure _

theorem plain (h : f.Alike R g) (mark : Mark) (s : Plain) :
    (f.plain mark s).Alike R (g.plain mark s) := by
  cases s with
  | set target value =>
    exact .bind (h.value mark value) fun v => .bind (h.assign target v) fun _ => .pure _
  | run subroutine =>
    refine .bind (h.note mark none) fun _ => .bind (h.runSubroutine subroutine) fun status => ?_
    cases status <;> exact .pure _
  | return_ => exact .bind (h.note mark none) fun _ => .pure _

theorem endRunaway (h : f.Alike R g) : f.endRunaway.Alike R g.endRunaway := by
  unfold Frame.endRunaway
  rw [h.title, h.img.settings]
  exact .bind (.record _ _ _) fun _ => .pure _

/-- A loop goes round as often in both invocations. -/
theorem iterate (h : f.Alike R g) (mark : Mark) (guard : Expr)
    {body body' : (b : Nat) → Exec (Flow b)} (hbody : ∀ b, (body b).Alike R (body' b))
    (budget : Nat) :
    (f.iterate mark guard body budget).Alike R (g.iterate mark guard body' budget) := by
  induction budget using Nat.strongRecOn with
  | ind budget ih =>
    cases budget with
    | zero =>
      rw [Frame.iterate, Frame.iterate]
      refine .bind (h.value mark guard) fun v => .ite ?_ (.pure _)
      exact .bind h.endRunaway fun status => .pure _
    | succ budget =>
      rw [Frame.iterate, Frame.iterate]
      refine .bind (h.value mark guard) fun v => .ite ?_ (.pure _)
      refine .bind (hbody budget) fun flow => ?_
      cases flow with
      | through left le => exact .bind (ih left (Nat.lt_succ_of_le le)) fun rest => .pure _
      | halt status => exact .pure _

end Frame.Alike

theorem Flow.andThen_alike {b : Nat} {x y : Exec (Flow b)} {k k' : (left : Nat) → Exec (Flow left)}
    (hx : x.Alike R y) (hk : ∀ left, (k left).Alike R (k' left)) :
    (Flow.andThen x k).Alike R (Flow.andThen y k') := by
  refine .bind hx fun flow => ?_
  cases flow with
  | through left le => exact .bind (hk left) fun rest => .pure _
  | halt status => exact .pure _

mutual

theorem Block.exec_alike (h : f.Alike R g) : ∀ (block : Block) (budget : Nat),
    (block.exec f budget).Alike R (block.exec g budget)
  | .done, budget => by
    rw [Block.exec, Block.exec]
    exact .pure _
  | .plain mark s rest, budget => by
    rw [Block.exec, Block.exec]
    refine .bind (h.plain mark s) fun status => ?_
    cases status with
    | none => exact rest.exec_alike h budget
    | some status => exact .pure _
  | .branch mark guard body arms rest, budget => by
    rw [Block.exec, Block.exec]
    refine Flow.andThen_alike (.bind (h.value mark guard) fun v => ?_) (rest.exec_alike h)
    exact .ite (body.exec_alike h budget) (arms.exec_alike h budget)
  | .loop mark guard body close rest, budget => by
    rw [Block.exec, Block.exec]
    exact Flow.andThen_alike (h.iterate mark guard (body.exec_alike h) budget)
      (rest.exec_alike h)

theorem Arms.exec_alike (h : f.Alike R g) : ∀ (arms : Arms) (budget : Nat),
    (arms.exec f budget).Alike R (arms.exec g budget)
  | .endIf close, budget => by
    rw [Arms.exec, Arms.exec]
    exact .pure _
  | .else_ mark body close, budget => by
    rw [Arms.exec, Arms.exec]
    exact body.exec_alike h budget
  | .elseIf mark guard body more, budget => by
    rw [Arms.exec, Arms.exec]
    refine .bind (h.value mark guard) fun v => ?_
    exact .ite (body.exec_alike h budget) (more.exec_alike h budget)

end

theorem Block.run_eq {budget : Nat} (tree : Block)
    (h : f.img.settings.limits.loopEntries = budget) :
    tree.run f = (do
      match ← tree.exec f budget with
      | .through _ _ => return .normal
      | .halt status => return status) := by
  subst h
  refine congrArg (tree.exec f f.img.settings.limits.loopEntries >>= ·) (funext fun flow => ?_)
  cases flow <;> rfl

theorem Block.run_alike (h : f.Alike R g) (tree : Block) :
    (tree.run f).Alike R (tree.run g) := by
  have hbudget : f.img.settings.limits.loopEntries = g.img.settings.limits.loopEntries := by
    rw [h.img.settings]
  rw [tree.run_eq hbudget, tree.run_eq rfl]
  refine .bind (tree.exec_alike h _) fun flow => ?_
  cases flow <;> exact .pure _

end Trees

section Programs

variable {R : Pairing} {img img' : Image} (h : img.Alike img')
  {names names' : ProgramId → Naming} (hnames : ∀ id, (names id).Alike R (names' id))
  (trees : ProgramId → Block)
include h hnames

/-- A program is invoked alike if subroutines are. -/
theorem Image.invocation_alike {call call' : Option (ProgramId → Exec Ending)}
    (hcall : Option.Rel (fun call call' => ∀ id, (call id).Alike R (call' id)) call call')
    (id : ProgramId) :
    Exec.Alike R
      (match img.programs[id]? with
        | none => pure .normal
        | some p => (trees id).run ⟨img, names id, p.name, call⟩)
      (match img'.programs[id]? with
        | none => pure .normal
        | some p => (trees id).run ⟨img', names' id, p.name, call'⟩) := by
  have hname := h.programs id
  cases hleft : img.programs[id]? with
  | none =>
    cases hright : img'.programs[id]? with
    | none => exact .pure _
    | some p' =>
      rw [hleft, hright] at hname
      cases hname
  | some p =>
    cases hright : img'.programs[id]? with
    | none =>
      rw [hleft, hright] at hname
      cases hname
    | some p' =>
      rw [hleft, hright] at hname
      have htitle : p.name = p'.name := Option.some.inj hname
      exact Block.run_alike ⟨h, hnames id, htitle, hcall⟩ (trees id)

/-- Trees run alike in two models, with subroutines to any depth. -/
theorem Image.interpret_alike (depth : Nat) (id : ProgramId) :
    (img.interpret names trees depth id).Alike R (img'.interpret names' trees depth id) := by
  induction depth generalizing id with
  | zero =>
    rw [Image.interpret, Image.interpret]
    exact Image.invocation_alike h hnames trees .none id
  | succ depth ih =>
    rw [Image.interpret, Image.interpret]
    exact Image.invocation_alike h hnames trees (.some ih) id

end Programs

end Erl
