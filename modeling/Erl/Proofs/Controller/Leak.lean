/-
  Erl.Proofs.Controller.Leak

  Where numbers that are not finite come from.

  Operators refuse results that are not finite, and so do the standard routines and the curves of a
  library.  What is not checked are literals, statistics that add up the samples of a trend, and
  the replies of routines and of an evaluator of curves that the host brings.  `Yields` is the way
  from an expression to the value of a part of it, and `Leaks` the way to a number that is not
  checked.  With finite variables and samples, every number that an expression yields is finite
  unless one that is not finite leaks.
-/

import Erl.Proofs.Controller.Places
import Erl.Proofs.Number.Finite

namespace Erl

/-! ## Values -/

/-- A value that is a finite number, or no number. -/
def Value.IsFinite (v : Value) : Prop :=
  ∀ x, v = .number x → x.isFinite = true

/-- A value that is a number, and finite. -/
def Value.IsFiniteNumber (v : Value) : Prop :=
  ∃ x, v = .number x ∧ x.isFinite = true

/-- A value that is a number or an error. -/
def Value.IsResult (v : Value) : Prop :=
  v.isError = true ∨ ∃ x, v = .number x

namespace Value

theorem isFinite_number {x : Float} (h : x.isFinite = true) : (number x).IsFinite := by
  intro y hy
  cases hy
  exact h

theorem isFinite_null : null.IsFinite := by
  intro x h
  cases h

theorem isFinite_trendRef (id : TrendId) : (trendRef id).IsFinite := by
  intro x h
  cases h

theorem isFinite_of_isError {v : Value} (h : v.isError = true) : v.IsFinite := by
  rintro x rfl
  cases h

theorem isFiniteNumber_ofBool (b : Bool) : (ofBool b).IsFiniteNumber := by
  cases b with
  | true => exact ⟨1.0, rfl, by decide +kernel⟩
  | false => exact ⟨0.0, rfl, by decide +kernel⟩

/-- A failed evaluation is no number. -/
theorem isFinite_ofExcept {r : Except EvalFault Value} (h : ∀ v, r = .ok v → v.IsFiniteNumber) :
    (ofExcept r).IsFinite := by
  cases r with
  | ok v =>
    obtain ⟨x, rfl, hx⟩ := h v rfl
    exact isFinite_number hx
  | error fault => exact isFinite_of_isError rfl

/-- A failed evaluation is an error. -/
theorem isResult_ofExcept {r : Except EvalFault Value} (h : ∀ v, r = .ok v → ∃ x, v = number x) :
    (ofExcept r).IsResult := by
  cases r with
  | ok v => exact .inr (h v rfl)
  | error fault => exact .inl rfl

/-- A number is no failed evaluation. -/
theorem eq_ok_of_ofExcept {r : Except EvalFault Value} {x : Float} (h : ofExcept r = number x) :
    r = .ok (number x) := by
  cases r with
  | ok v => exact congrArg Except.ok h
  | error fault => cases h

/-- The negation of a finite value is finite. -/
theorem IsFinite.negate {v : Value} (h : v.IsFinite) : (ofExcept v.negate).IsFinite := by
  cases v with
  | number x => exact isFinite_number (isFinite_neg (h x rfl))
  | _ => exact isFinite_of_isError rfl

theorem isResult_negate (v : Value) : (ofExcept v.negate).IsResult := by
  cases v with
  | number x => exact .inr ⟨-x, rfl⟩
  | _ => exact .inl rfl

end Value

/-- All numbers in variables are finite. -/
def Store.IsFinite (t : Store) : Prop :=
  ∀ id, (t.value id).IsFinite

theorem Store.IsFinite.set {t : Store} {v : Value} (h : t.IsFinite) (hv : v.IsFinite)
    (target : VariableId) : (t.set target v).IsFinite := by
  intro id
  rw [Store.value_set]
  split
  · exact hv
  · exact h id

/-- All samples of trends are finite. -/
def Image.HasFiniteSamples (img : Image) : Prop :=
  ∀ t ∈ img.trends, t.history.IsFinite

/-! ## Operators and functions -/

theorem BinaryOp.finiteResult_finite {op : BinaryOp} {a b x : Float} {v : Value}
    (h : op.finiteResult a b x = .ok v) : v.IsFiniteNumber := by
  unfold finiteResult at h
  split at h
  · next hfinite =>
    cases h
    exact ⟨x, rfl, hfinite⟩
  · cases h

/-- Operators on numbers give finite numbers, whatever the numbers are. -/
theorem BinaryOp.onNumbers_finite {op : BinaryOp} {a b : Float} {v : Value}
    (h : op.onNumbers a b = .ok v) : v.IsFiniteNumber := by
  unfold onNumbers at h
  cases op with
  | divide =>
    dsimp only at h
    split at h
    · cases h
    · exact finiteResult_finite h
  | power =>
    dsimp only at h
    split at h
    · cases h
    · exact finiteResult_finite h
  | multiply => exact finiteResult_finite h
  | subtract => exact finiteResult_finite h
  | add => exact finiteResult_finite h
  | _ =>
    cases h
    exact Value.isFiniteNumber_ofBool _

/-- A judgement about two values is a finite number. -/
theorem isFiniteNumber_of_map_ofBool {r : Except EvalFault Bool} {f : Bool → Bool} {v : Value}
    (h : (r.map fun s => .ofBool (f s)) = .ok v) : v.IsFiniteNumber := by
  cases r with
  | error fault => cases h
  | ok s =>
    cases h
    exact Value.isFiniteNumber_ofBool _

/-- Operators give finite numbers, whatever the operands are. -/
theorem BinaryOp.apply_finite {op : BinaryOp} {a b v : Value} (h : op.apply a b = .ok v) :
    v.IsFiniteNumber := by
  unfold apply at h
  split at h
  · exact isFiniteNumber_of_map_ofBool (f := id) h
  · exact isFiniteNumber_of_map_ofBool h
  · split at h
    · cases h
    · split at h
      · cases h
      · exact onNumbers_finite h

/-- The value of a curve is what the evaluator of the host replies. -/
theorem exists_of_callCurve {img : Image} {args : List Value} {v : Value}
    (h : callCurve img args = .ok v) :
    ∃ index inputs x, v = .number x ∧ img.curves.value index inputs = .ok x := by
  unfold callCurve at h
  split at h
  · cases h
  · cases h
  · next inputs _ =>
    split at h
    · split at h
      · next x hvalue =>
        cases h
        exact ⟨_, inputs, x, rfl, hvalue⟩
      · cases h
    · cases h

/-- A statistic that adds up samples. -/
def TrendFunction.addsUp : TrendFunction → Bool
  | sum => true
  | average => true
  | direction => true
  | _ => false

/-- A function of trends gives a statistic of a trend. -/
theorem exists_of_callTrend {img : Image} {f : TrendFunction} {args : List Value} {v : Value}
    (h : callTrend img f args = .ok v) :
    ∃ t ∈ img.trends, ∃ samples x, v = .number x
      ∧ f.statistic t.history samples img.settings.timestepHours = some x := by
  unfold callTrend at h
  split at h
  · cases h
  · split at h
    · cases h
    · next t ht =>
      split at h
      · cases h
      · next samples _ =>
        split at h
        · next x hx =>
          cases h
          exact ⟨t, Array.mem_of_getElem? ht, samples, x, rfl, hx⟩
        · split at h <;> cases h
  · cases h

/-- A statistic that is one of the samples is finite if they are. -/
theorem callTrend_finite {img : Image} (hsamples : img.HasFiniteSamples) {f : TrendFunction}
    (hf : f.addsUp = false) {args : List Value} {v : Value} (h : callTrend img f args = .ok v) :
    v.IsFiniteNumber := by
  obtain ⟨t, ht, samples, x, rfl, hx⟩ := exists_of_callTrend h
  have hfinite : t.history.IsFinite := hsamples t ht
  refine ⟨x, rfl, ?_⟩
  cases f with
  | value => exact hfinite.sample? hx
  | max => exact hfinite.max? hx
  | min => exact hfinite.min? hx
  | _ => cases hf

/-! ## Leaks -/

/-- What is not checked to be finite. -/
inductive Leak where
  | literal
  /-- A statistic that adds up samples. -/
  | statistic (f : TrendFunction)
  /-- The reply of a routine. -/
  | reply (f : Builtin)
  /-- The reply of an evaluator of curves. -/
  | curve
  deriving Repr, DecidableEq

/-- What is not checked about the value of a function; the standard routines and the curves of a
    library make up for it. -/
def Builtin.leak? : Builtin → Option Leak
  | trend f => if f.addsUp then some (.statistic f) else none
  | math f => some (.reply (.math f))
  | air f => some (.reply (.air f))
  | message _ => none
  | curveValue => some .curve

namespace Image

/-- A number that an image has or gets, without a check, where a leak is. -/
def Supplies (img : Image) (x : Float) : Leak → Prop
  | .literal => ∃ n ∈ img.nodes, .constant (.number x) ∈ n.operands
  | .statistic f => f.addsUp = true ∧ ∃ t ∈ img.trends, ∃ samples,
      f.statistic t.history samples img.settings.timestepHours = some x
  | .reply f => ∃ xs generator, (img.routines f xs generator).1 = .value x
  | .curve => ∃ index inputs, img.curves.value index inputs = .ok x

/-- With the standard routines replies are finite. -/
theorem Supplies.isFinite_of_standard {img : Image} {x : Float} {f : Builtin}
    (h : img.Supplies x (.reply f)) (hroutines : img.routines = .standard) :
    x.isFinite = true := by
  obtain ⟨xs, generator, hreply⟩ := h
  rw [hroutines] at hreply
  exact Routines.standard_isFinite f xs generator x hreply

/-- With the curves of a library values are finite. -/
theorem Supplies.isFinite_of_library {img : Image} {x : Float} {l : Curves}
    (h : img.Supplies x .curve) (hcurves : img.curves = l.evaluator) : x.isFinite = true := by
  obtain ⟨index, inputs, hvalue⟩ := h
  rw [hcurves] at hvalue
  exact Curves.value_isFinite hvalue

/-- The evaluation of an expression comes to an operand, after the operands before it. -/
def ReadsAt (img : Image) (program : String) (e : NodeId) (m : Machine) (o : Operand)
    (m' : Machine) : Prop :=
  ∃ n before after values, img.nodes[e]? = some n ∧ n.operands = before ++ o :: after
    ∧ readOperands (img.evaluate program) before m = .ok (.ok values) m'

/-- The evaluation of an expression comes to a value: its own, that of an operand, or one that the
    evaluation of an operand comes to. -/
inductive Yields (img : Image) (program : String) (v : Value) : NodeId → Machine → Prop where
  | whole {e : NodeId} {m m' : Machine} :
      img.evaluate program e m = .ok v m' → Yields img program v e m
  | operand {e : NodeId} {o : Operand} {m m' m'' : Machine} :
      img.ReadsAt program e m o m' → o.read (img.evaluate program) m' = .ok v m'' →
      Yields img program v e m
  | within {e sub : NodeId} {m m' : Machine} :
      img.ReadsAt program e m (.node sub) m' → Yields img program v sub m' →
      Yields img program v e m

/-- The evaluation of an expression comes to a number that is not checked: a literal, or the value
    of a call. -/
inductive Leaks (img : Image) (program : String) (leak : Leak) (x : Float) :
    NodeId → Machine → Prop where
  | literal {e : NodeId} {m m' : Machine} : leak = .literal →
      img.ReadsAt program e m (.constant (.number x)) m' → Leaks img program leak x e m
  | call {e : NodeId} {f : Builtin} {os : List Operand} {m m' : Machine} :
      img.nodes[e]? = some ⟨.call f, os⟩ → f.leak? = some leak →
      img.evaluate program e m = .ok (.number x) m' → Leaks img program leak x e m
  | within {e sub : NodeId} {m m' : Machine} :
      img.ReadsAt program e m (.node sub) m' → Leaks img program leak x sub m' →
      Leaks img program leak x e m

variable {img : Image} {program : String} {e : NodeId} {m m' : Machine}

/-- A number that leaks is yielded. -/
theorem Leaks.yields {leak : Leak} {x : Float} (h : img.Leaks program leak x e m) :
    img.Yields program (.number x) e m := by
  induction h with
  | literal _ hreads => exact .operand hreads rfl
  | call _ _ hvalue => exact .whole hvalue
  | within hreads _ ih => exact .within hreads ih

/-- What is read is an operand of a node. -/
theorem ReadsAt.mem {o : Operand} (h : img.ReadsAt program e m o m') :
    ∃ n ∈ img.nodes, o ∈ n.operands := by
  obtain ⟨n, before, after, values, hn, hos, -⟩ := h
  exact ⟨n, Array.mem_of_getElem? hn, by simp [hos]⟩

/-- What leaks is a literal, or comes from a node that calls a function. -/
theorem Leaks.mem {leak : Leak} {x : Float} (h : img.Leaks program leak x e m) :
    leak = .literal ∨ ∃ f os, f.leak? = some leak ∧ ⟨.call f, os⟩ ∈ img.nodes := by
  induction h with
  | literal hleak _ => exact .inl hleak
  | call hn hleak _ => exact .inr ⟨_, _, hleak, Array.mem_of_getElem? hn⟩
  | within _ _ ih => exact ih

theorem ReadsAt.store {o : Operand} (h : img.ReadsAt program e m o m') :
    m'.store = m.store := by
  obtain ⟨n, before, after, values, -, -, hread⟩ := h
  have hstore := readOperands_store img program before m
  rw [hread] at hstore
  exact hstore

end Image

/-! ## Expressions -/

/-- What was read from operands is finite: their values, or the error that ended the reading. -/
def AreFinite : Except Value (List Value) → Prop
  | .ok values => ∀ v ∈ values, v.IsFinite
  | .error v => v.IsFinite

/-- All that is read from operands is finite if each of them is read to a finite value. -/
theorem readOperands_areFinite {sub : NodeId → Exec Value} {os : List Operand} {m m' : Machine}
    {r : Except Value (List Value)}
    (hread : ∀ before o after values m₁ v m₂, os = before ++ o :: after →
      readOperands sub before m = .ok (.ok values) m₁ → o.read sub m₁ = .ok v m₂ → v.IsFinite)
    (h : readOperands sub os m = .ok r m') : AreFinite r := by
  induction os generalizing m m' r with
  | nil =>
    cases h
    intro v hv
    cases hv
  | cons o rest ih =>
    rw [readOperands] at h
    obtain ⟨v, m₁, hfirst, h⟩ := Exec.bind_eq_ok_iff.1 h
    have hv : v.IsFinite := hread [] o rest [] m v m₁ rfl rfl hfirst
    split at h
    · cases h
      exact hv
    · next hvalue =>
      obtain ⟨r', m₂, hrest, h⟩ := Exec.bind_eq_ok_iff.1 h
      have hfinite : AreFinite r' := by
        refine ih (fun before o' after values m₃ w m₄ hos hbefore hw => ?_) hrest
        -- what is read after the first operand is read by the whole as well
        have hbefore' : readOperands sub (o :: before) m = .ok (.ok (v :: values)) m₃ :=
          (readOperands_cons_eq_ok_iff sub).2
            ⟨v, values, m₁, hfirst, by simpa using hvalue, hbefore, rfl⟩
        exact hread (o :: before) o' after (v :: values) m₃ w m₄ (by rw [hos]; rfl) hbefore' hw
      cases r' with
      | error w =>
        cases h
        exact hfinite
      | ok vs =>
        cases h
        intro a ha
        rcases List.mem_cons.1 ha with rfl | ha
        · exact hv
        · exact hfinite a ha

section Functions

variable {img : Image} (hsamples : img.HasFiniteSamples) {program : String} {m m' : Machine}
  {v : Value}
include hsamples

/-- A function that is checked has a finite value. -/
theorem applyBuiltin_isFinite {f : Builtin} (hf : f.leak? = none) {args : List Value}
    (h : applyBuiltin img program f args m = .ok v m') : v.IsFinite := by
  cases f with
  | math f => cases hf
  | air f => cases hf
  | message f => cases f <;> cases h <;> exact Value.isFinite_null
  | curveValue => cases hf
  | trend f =>
    have hadds : f.addsUp = false := by
      cases f <;> first | rfl | cases hf
    cases h
    exact Value.isFinite_ofExcept fun v hv => callTrend_finite hsamples hadds hv

/-- An operation on finite values has a finite value, unless it is a call of a function that is
    not checked. -/
theorem Operation.apply_isFinite {o : Operation} {args : List Value}
    (hargs : ∀ a ∈ args, a.IsFinite) (h : o.apply img program args m = .ok v m') :
    v.IsFinite ∨ ∃ f leak, o = .call f ∧ f.leak? = some leak := by
  unfold Operation.apply at h
  split at h
  · cases h
    exact .inl (hargs _ (by simp))
  · cases h
    exact .inl (hargs _ (by simp)).negate
  · cases h
    exact .inl (Value.isFinite_ofExcept fun v hv => BinaryOp.apply_finite hv)
  · next f =>
    split at h
    · cases hleak : f.leak? with
      | some leak => exact .inr ⟨f, leak, rfl, hleak⟩
      | none => exact .inl (applyBuiltin_isFinite hsamples hleak h)
    · cases h
      exact .inl (Value.isFinite_of_isError rfl)
  · cases h
    exact .inl (Value.isFinite_of_isError rfl)

/-- A node whose operands are read to finite values has one, unless it is a call of a function that
    is not checked. -/
theorem Node.evaluate_isFinite {n : Node} {sub : NodeId → Exec Value}
    (hread : ∀ before o after values m₁ v m₂, n.operands = before ++ o :: after →
      readOperands sub before m = .ok (.ok values) m₁ → o.read sub m₁ = .ok v m₂ → v.IsFinite)
    (h : n.evaluate img program sub m = .ok v m') :
    v.IsFinite ∨ ∃ f leak, n.operation = .call f ∧ f.leak? = some leak := by
  generalize hx : n.evaluate img program sub = x at h
  unfold Node.evaluate at hx
  split at hx
  · next o rest _ hos =>
    subst hx
    exact .inl (hread [] o rest [] m v m' hos rfl h)
  · subst hx
    cases h
    exact .inl Value.isFinite_null
  · subst hx
    obtain ⟨r, m₁, hoperands, h⟩ := Exec.bind_eq_ok_iff.1 h
    have hfinite := readOperands_areFinite hread hoperands
    cases r with
    | error w =>
      cases h
      exact .inl hfinite
    | ok args => exact Operation.apply_isFinite hsamples hfinite h

end Functions

namespace Image

variable {img : Image} {program : String} {e : NodeId} {m m' : Machine} {v : Value}

/-- An operand is read to a finite value, if a node that it refers to has one. -/
theorem ReadsAt.read_isFinite {o : Operand} {m₁ m₂ : Machine} (h : img.ReadsAt program e m o m₁)
    (hm : m.store.IsFinite)
    (hleaks : ∀ leak x, img.Leaks program leak x e m → x.isFinite = true)
    (hsub : ∀ sub, o = .node sub → m₁.store.IsFinite →
      (∀ leak x, img.Leaks program leak x sub m₁ → x.isFinite = true) →
      img.evaluate program sub m₁ = .ok v m₂ → v.IsFinite)
    (hread : o.read (img.evaluate program) m₁ = .ok v m₂) : v.IsFinite := by
  have hm₁ : m₁.store.IsFinite := by rwa [h.store]
  cases o with
  | constant l =>
    cases hread
    cases l with
    | number x => exact Value.isFinite_number (hleaks .literal x (.literal rfl h))
    | text s => exact fun x hx => by cases hx
    | null => exact Value.isFinite_null
  | variableRef id =>
    cases hread
    exact hm₁ id
  | trendRef id =>
    cases hread
    exact Value.isFinite_trendRef id
  | node sub =>
    exact hsub sub rfl hm₁ (fun leak x hleak => hleaks leak x (.within h hleak)) hread

variable (hforest : IsForest img.nodes) (hsamples : img.HasFiniteSamples)
include hforest hsamples

/-- The value of an expression is finite if the variables are and nothing leaks that is not. -/
theorem evaluate_isFinite (hm : m.store.IsFinite)
    (hleaks : ∀ leak x, img.Leaks program leak x e m → x.isFinite = true)
    (h : img.evaluate program e m = .ok v m') : v.IsFinite := by
  -- by induction on the position: operands stand before the node
  induction e using Nat.strongRecOn generalizing m m' v with
  | ind e ih =>
    cases hn : img.nodes[e]? with
    | none =>
      rw [Image.evaluate, hn] at h
      cases h
      exact Value.isFinite_of_isError rfl
    | some n =>
      have hvalue := h
      rw [img.evaluate_eq program hn (hforest e n hn)] at hvalue
      have hread : ∀ before o after values m₁ v m₂, n.operands = before ++ o :: after →
          readOperands (img.evaluate program) before m = .ok (.ok values) m₁ →
          o.read (img.evaluate program) m₁ = .ok v m₂ → v.IsFinite := by
        intro before o after values m₁ w m₂ hos hbefore hw
        have hreads : img.ReadsAt program e m o m₁ :=
          ⟨n, before, after, values, hn, hos, hbefore⟩
        refine hreads.read_isFinite hm hleaks (fun sub ho hm₁ hleaks₁ hsub => ?_) hw
        have hlt : sub < e := hforest e n hn (.node sub) (by simp [hos, ho])
        exact ih sub hlt hm₁ hleaks₁ hsub
      rcases Node.evaluate_isFinite hsamples hread hvalue with
        hfinite | ⟨f, leak, hoperation, hleak⟩
      · exact hfinite
      · -- a number that is not checked leaks
        obtain ⟨operation, os⟩ := n
        cases hoperation
        rintro x rfl
        exact hleaks leak x (.call hn hleak h)

/-- All that an expression yields is finite if the variables are and nothing leaks that is not. -/
theorem Yields.isFinite (h : img.Yields program v e m) (hm : m.store.IsFinite)
    (hleaks : ∀ leak x, img.Leaks program leak x e m → x.isFinite = true) : v.IsFinite := by
  induction h with
  | whole hvalue => exact evaluate_isFinite hforest hsamples hm hleaks hvalue
  | operand hreads hread =>
    refine hreads.read_isFinite hm hleaks (fun sub _ hm₁ hleaks₁ hsub => ?_) hread
    exact evaluate_isFinite hforest hsamples hm₁ hleaks₁ hsub
  | within hreads _ ih =>
    refine ih ?_ fun leak x hleak => hleaks leak x (.within hreads hleak)
    rwa [hreads.store]

end Image

/-! ## Results -/

/-- The reading of operands is ended by an error only. -/
theorem isError_of_readOperands {sub : NodeId → Exec Value} {os : List Operand} {m m' : Machine}
    {v : Value} (h : readOperands sub os m = .ok (.error v) m') : v.isError = true := by
  induction os generalizing m with
  | nil => cases h
  | cons o rest ih =>
    rw [readOperands] at h
    obtain ⟨w, m₁, -, h⟩ := Exec.bind_eq_ok_iff.1 h
    split at h
    · next hvalue =>
      cases h
      exact hvalue
    · obtain ⟨r, m₂, hrest, h⟩ := Exec.bind_eq_ok_iff.1 h
      cases r with
      | error w' =>
        cases h
        exact ih hrest
      | ok vs => cases h

/-- An operator, or a function that does more than to write a message. -/
def Operation.computes : Operation → Bool
  | literal => false
  | call (.message _) => false
  | _ => true

/-- A routine gives an error, or the number that is its reply. -/
theorem callRoutine_cases {img : Image} {f : Builtin} {args : List Value} {m m' : Machine}
    {v : Value} (h : callRoutine img f args m = .ok v m') :
    v.isError = true ∨ ∃ xs x, numericArguments f args = .ok xs
      ∧ (img.routines f xs m.generator).1 = .value x ∧ v = .number x := by
  unfold callRoutine at h
  cases hxs : numericArguments f args with
  | error fault =>
    rw [hxs] at h
    cases h
    exact .inl rfl
  | ok xs =>
    rw [hxs] at h
    obtain ⟨_, m₁, hget, h⟩ := Exec.bind_eq_ok_iff.1 h
    cases hget
    generalize hr : img.routines f xs m.generator = r at h
    obtain ⟨reply, generator⟩ := r
    obtain ⟨_, m₂, -, h⟩ := Exec.bind_eq_ok_iff.1 h
    cases reply with
    | value x =>
      cases h
      exact .inr ⟨xs, x, rfl, by rw [hr], rfl⟩
    | refused e =>
      cases h
      exact .inl rfl
    | breakdown => cases h

theorem applyBuiltin_isResult {img : Image} {program : String} {f : Builtin} {args : List Value}
    {m m' : Machine} {v : Value} (hf : (Operation.call f).computes = true)
    (h : applyBuiltin img program f args m = .ok v m') : v.IsResult := by
  have hroutine : ∀ g, callRoutine img g args m = .ok v m' → v.IsResult := by
    intro g hvalue
    rcases callRoutine_cases hvalue with herror | ⟨xs, x, -, -, hx⟩
    · exact .inl herror
    · exact .inr ⟨x, hx⟩
  cases f with
  | math f => exact hroutine _ h
  | air f => exact hroutine _ h
  | message f => cases hf
  | trend f =>
    cases h
    refine Value.isResult_ofExcept fun v hv => ?_
    obtain ⟨t, -, samples, x, hx, -⟩ := exists_of_callTrend hv
    exact ⟨x, hx⟩
  | curveValue =>
    cases h
    refine Value.isResult_ofExcept fun v hv => ?_
    obtain ⟨index, inputs, x, hx, -⟩ := exists_of_callCurve hv
    exact ⟨x, hx⟩

theorem Operation.apply_isResult {img : Image} {program : String} {o : Operation}
    {args : List Value} {m m' : Machine} {v : Value} (ho : o.computes = true)
    (h : o.apply img program args m = .ok v m') : v.IsResult := by
  unfold Operation.apply at h
  split at h
  · cases ho
  · cases h
    exact Value.isResult_negate _
  · cases h
    refine Value.isResult_ofExcept fun v hv => ?_
    obtain ⟨x, hx, -⟩ := BinaryOp.apply_finite hv
    exact ⟨x, hx⟩
  · split at h
    · exact applyBuiltin_isResult ho h
    · cases h
      exact .inl rfl
  · cases h
    exact .inl rfl

/-- What is computed is a number or an error. -/
theorem Image.evaluate_isResult {img : Image} (hforest : IsForest img.nodes) {program : String}
    {e : NodeId} {n : Node} {m m' : Machine} {v : Value} (hn : img.nodes[e]? = some n)
    (hcomputes : n.operation.computes = true) (h : img.evaluate program e m = .ok v m') :
    v.IsResult := by
  rw [img.evaluate_eq program hn (hforest e n hn)] at h
  generalize hx : n.evaluate img program (img.evaluate program) = x at h
  unfold Node.evaluate at hx
  split at hx
  · next hliteral _ =>
    rw [hliteral] at hcomputes
    cases hcomputes
  · next hliteral _ =>
    rw [hliteral] at hcomputes
    cases hcomputes
  · subst hx
    obtain ⟨r, m₁, hread, h⟩ := Exec.bind_eq_ok_iff.1 h
    cases r with
    | error w =>
      cases h
      exact .inl (isError_of_readOperands hread)
    | ok args => exact Operation.apply_isResult hcomputes h

/-! ## Sources of leaks -/

/-- A function that is not checked gives what is supplied to it. -/
theorem applyBuiltin_supplies {img : Image} {program : String} {f : Builtin} {leak : Leak}
    {args : List Value} {m m' : Machine} {x : Float} (hf : f.leak? = some leak)
    (h : applyBuiltin img program f args m = .ok (.number x) m') : img.Supplies x leak := by
  have hroutine : ∀ g, callRoutine img g args m = .ok (.number x) m' →
      img.Supplies x (.reply g) := by
    intro g hvalue
    rcases callRoutine_cases hvalue with herror | ⟨xs, y, -, hreply, hy⟩
    · cases herror
    · cases hy
      exact ⟨xs, m.generator, hreply⟩
  cases f with
  | math f =>
    cases hf
    exact hroutine _ h
  | air f =>
    cases hf
    exact hroutine _ h
  | message f => cases hf
  | trend f =>
    rw [Builtin.leak?, Option.ite_none_right_eq_some] at hf
    obtain ⟨hadds, hleak⟩ := hf
    cases hleak
    obtain ⟨hcall, -⟩ := EStateM.Result.ok.inj h
    obtain ⟨t, ht, samples, y, hy, hx⟩ := exists_of_callTrend (Value.eq_ok_of_ofExcept hcall)
    cases hy
    exact ⟨hadds, t, ht, samples, hx⟩
  | curveValue =>
    cases hf
    obtain ⟨hcall, -⟩ := EStateM.Result.ok.inj h
    obtain ⟨index, inputs, y, hy, hx⟩ := exists_of_callCurve (Value.eq_ok_of_ofExcept hcall)
    cases hy
    exact ⟨index, inputs, hx⟩

/-- What leaks is supplied. -/
theorem Image.Leaks.supplies {img : Image} (hforest : IsForest img.nodes) {program : String}
    {e : NodeId} {m : Machine} {leak : Leak} {x : Float} (h : img.Leaks program leak x e m) :
    img.Supplies x leak := by
  induction h with
  | literal hleak hreads =>
    rw [hleak]
    exact hreads.mem
  | within _ _ ih => exact ih
  | @call e f os m m' hn hf hvalue =>
    rw [img.evaluate_eq program hn (hforest e _ hn)] at hvalue
    obtain ⟨r, m₁, hread, hvalue⟩ := Exec.bind_eq_ok_iff.1 hvalue
    cases r with
    | error w =>
      cases hvalue
      cases isError_of_readOperands hread
    | ok args =>
      simp only [Operation.apply] at hvalue
      split at hvalue
      · exact applyBuiltin_supplies hf hvalue
      · cases hvalue

end Erl
