/-
  Erl.Proofs.Number.Finite

  Finite numbers.

  A number is finite if its exponent field is not all ones.  Negation keeps the field, and the
  greatest and the smallest of finite numbers is one of them.  The standard routines and curves
  check what they give.
-/

import Erl.Curve
import Erl.Proofs.Routine
import Erl.Proofs.Trend

namespace Erl

/-! ## Fields -/

section Fields

open Float.Model
open Float.Model.UnpackedFloat (unpackExponent packComponents unpackExponent_packComponents)

/-- A number that is zero, or whose exponent fits into the exponent field. -/
def FitsField : UnpackedFloat → Prop
  | .zero _ => True
  | .finite _ _ e _ => (e + 1023 + 52).toNat < 2047
  | _ => False

theorem FitsField.neg {u : UnpackedFloat} (h : FitsField u) : FitsField u.neg := by
  cases u with
  | finite s k e hk => exact h
  | zero s => trivial
  | infinity s => exact h
  | notANumber => exact h

variable {b : BitVec Format.binary64.numBits}

/-- A field that is not all ones is smaller than all ones. -/
theorem toNat_lt_of_ne_ones {e : BitVec 11} (h : e ≠ -1#11) : e.toNat < 2047 := by
  have hne : e.toNat ≠ 2047 := fun he => h (BitVec.eq_of_toNat_eq he)
  have hlt := e.isLt
  omega

/-- A number whose exponent field is not all ones fits. -/
theorem unpack_fitsField (h : unpackExponent b ≠ -1#11) :
    FitsField (UnpackedFloat.unpack Format.binary64 b) := by
  have hlt : (unpackExponent b).toNat < 2047 := toNat_lt_of_ne_ones h
  delta UnpackedFloat.unpack
  dsimp only
  rw [if_neg h]
  by_cases hzero : unpackExponent b = 0#11
  · rw [if_pos hzero]
    have hfield : (unpackExponent b).toNat = 0 := by
      rw [hzero]
      rfl
    by_cases hmantissa : UnpackedFloat.unpackMantissa b = 0#52
    · rw [dif_pos hmantissa]
      trivial
    · rw [dif_neg hmantissa]
      show (((unpackExponent b).toNat : Int) - (1023 + 52) + 1 + 1023 + 52).toNat < 2047
      omega
  · rw [if_neg hzero]
    show (((unpackExponent b).toNat : Int) - (1023 + 52) + 1023 + 52).toNat < 2047
    omega

theorem unpack_isFinite_of_ones (h : unpackExponent b = -1#_) :
    (UnpackedFloat.unpack Format.binary64 b).isFinite = false := by
  delta UnpackedFloat.unpack
  dsimp only
  rw [if_pos h]
  split <;> rfl

/-- The exponent field of a number that fits is not all ones. -/
theorem FitsField.unpackExponent_pack {u : UnpackedFloat} (h : FitsField u) :
    unpackExponent (UnpackedFloat.pack Format.binary64 u) ≠ -1#11 := by
  cases u with
  | zero s =>
    show unpackExponent (packComponents Format.binary64 s 0 0) ≠ -1#11
    rw [unpackExponent_packComponents]
    decide
  | finite s k e hk =>
    have hlt : (e + 1023 + 52).toNat < 2047 := h
    show unpackExponent (if 2048 ≤ (e + 1023 + 52).toNat + 1 then _ else if k.log2 + 1 = 53 then
      packComponents Format.binary64 s (BitVec.ofNat 11 (e + 1023 + 52).toNat) _
      else packComponents Format.binary64 s 0 _) ≠ -1#11
    rw [if_neg (by omega)]
    split
    · rw [unpackExponent_packComponents]
      intro hones
      have htoNat := congrArg BitVec.toNat hones
      rw [BitVec.toNat_ofNat, Nat.mod_eq_of_lt (by omega)] at htoNat
      exact absurd htoNat (Nat.ne_of_lt hlt)
    · rw [unpackExponent_packComponents]
      decide
  | infinity s => exact h.elim
  | notANumber => exact h.elim

theorem FitsField.isFinite {u : UnpackedFloat} (h : FitsField u) : u.isFinite = true := by
  cases u with
  | finite s k e hk => rfl
  | zero s => rfl
  | infinity s => exact h.elim
  | notANumber => exact h.elim

/-- The exponent field of a number. -/
def exponentField (x : Float) : BitVec 11 :=
  @unpackExponent Format.binary64 x.toModel.toBits.toBitVec

/-- A number is finite exactly if its exponent field is not all ones. -/
theorem isFinite_iff (x : Float) : x.isFinite = true ↔ exponentField x ≠ -1#11 := by
  constructor
  · intro hfinite hones
    have hnot : x.isFinite = false := unpack_isFinite_of_ones hones
    rw [hnot] at hfinite
    cases hfinite
  · intro hne
    exact (unpack_fitsField hne).isFinite

/-- Negation keeps a number finite. -/
theorem isFinite_neg {x : Float} (h : x.isFinite = true) : (-x).isFinite = true := by
  have hfits := (unpack_fitsField ((isFinite_iff x).1 h)).neg
  exact (isFinite_iff (-x)).2 hfits.unpackExponent_pack

end Fields

/-! ## Order -/

section Order

open Float.Model

/-- A finite number lies between the infinities. -/
theorem between_infinities {x : Float} (h : x.isFinite = true) :
    (-1.0 / 0.0 : Float) < x ∧ x < (1.0 / 0.0 : Float) := by
  have hlow : (-1.0 / 0.0 : Float).toModel.unpack = .infinity .negative := by rfl
  have hhigh : (1.0 / 0.0 : Float).toModel.unpack = .infinity .positive := by rfl
  rw [lt_iff_compare, lt_iff_compare, hlow, hhigh]
  have hmodel : x.toModel.unpack.isFinite = true := h
  cases hx : x.toModel.unpack with
  | zero s => exact ⟨rfl, rfl⟩
  | finite s k e hk => exact ⟨rfl, rfl⟩
  | infinity s =>
    rw [hx] at hmodel
    cases hmodel
  | notANumber =>
    rw [hx] at hmodel
    cases hmodel

end Order

/-! ## Greatest and smallest -/

section Extremes

variable {a b : Float}

/-- The greater of two finite numbers is finite. -/
theorem isFinite_max (ha : a.isFinite = true) (hb : b.isFinite = true) :
    (Scalar.max a b).isFinite = true := by
  unfold Scalar.max
  split
  · exact hb
  · split
    · exact ha
    · exact hb

theorem isFinite_min (ha : a.isFinite = true) (hb : b.isFinite = true) :
    (Scalar.min a b).isFinite = true := by
  unfold Scalar.min
  split
  · exact hb
  · split
    · exact ha
    · exact hb

/-- What two finite numbers are combined to, one after another, is finite if each step is. -/
theorem isFinite_foldl {f : Float → Float → Float}
    (hf : ∀ {a b : Float}, a.isFinite = true → b.isFinite = true → (f a b).isFinite = true)
    {xs : List Float} (hxs : ∀ x ∈ xs, x.isFinite = true) (ha : a.isFinite = true) :
    (xs.foldl f a).isFinite = true := by
  induction xs generalizing a with
  | nil => exact ha
  | cons x rest ih =>
    have hfirst := hf ha (hxs x List.mem_cons_self)
    exact ih (fun y hy => hxs y (List.mem_cons_of_mem x hy)) hfirst

end Extremes

/-! ## Histories -/

namespace History

variable {h : History Float} {k : Nat} {x : Float}

/-- All samples of a history are finite. -/
def IsFinite (h : History Float) : Prop :=
  ∀ x ∈ h.samples, x.isFinite = true

/-- A window holds a sample, and only samples of its history. -/
theorem window?_eq_some {samples : List Float} (hwindow : h.window? k = some samples) :
    ∃ x rest, samples = x :: rest ∧ ∀ y ∈ samples, y ∈ h.samples := by
  obtain ⟨rfl, hne⟩ := window?_eq_some_iff.1 hwindow
  obtain ⟨x, rest, heq⟩ := List.exists_cons_of_ne_nil hne
  exact ⟨x, rest, heq, fun y hy => List.mem_of_mem_take hy⟩

/-- The greatest of finite samples is finite. -/
theorem IsFinite.max? (hfinite : h.IsFinite) (hx : h.max? k = some x) : x.isFinite = true := by
  obtain ⟨samples, hwindow, rfl⟩ := Option.map_eq_some_iff.1 hx
  obtain ⟨y, rest, rfl, hmem⟩ := window?_eq_some hwindow
  have hall : ∀ z ∈ y :: rest, z.isFinite = true := fun z hz => hfinite z (hmem z hz)
  have hy := hall y List.mem_cons_self
  -- the first sample takes the place of the start value
  rw [List.foldl_cons, Scalar.max, if_pos (between_infinities hy).1]
  exact isFinite_foldl isFinite_max (fun z hz => hall z (List.mem_cons_of_mem y hz)) hy

theorem IsFinite.min? (hfinite : h.IsFinite) (hx : h.min? k = some x) : x.isFinite = true := by
  obtain ⟨samples, hwindow, rfl⟩ := Option.map_eq_some_iff.1 hx
  obtain ⟨y, rest, rfl, hmem⟩ := window?_eq_some hwindow
  have hall : ∀ z ∈ y :: rest, z.isFinite = true := fun z hz => hfinite z (hmem z hz)
  have hy := hall y List.mem_cons_self
  rw [List.foldl_cons, Scalar.min, if_pos (between_infinities hy).2]
  exact isFinite_foldl isFinite_min (fun z hz => hall z (List.mem_cons_of_mem y hz)) hy

theorem IsFinite.sample? (hfinite : h.IsFinite) (hx : h.sample? k = some x) :
    x.isFinite = true := by
  unfold History.sample? at hx
  split at hx
  · cases hx
  · exact hfinite x (List.mem_of_getElem? hx)

/-- A history that takes a finite sample stays finite. -/
theorem IsFinite.log (hfinite : h.IsFinite) (hx : x.isFinite = true) : (h.log x).IsFinite := by
  intro y hy
  rcases List.mem_cons.1 (List.mem_of_mem_take hy) with rfl | hy
  · exact hx
  · exact hfinite y hy

end History

/-! ## Checked results -/

/-- What passes the check is finite. -/
theorem isFinite_of_finite {label : String} {x y : Float} (h : finite label x = .ok y) :
    y.isFinite = true := by
  unfold finite at h
  split at h
  · next hfinite =>
    cases h
    exact hfinite
  · cases h

/-- A reply that is a finite number, or no number. -/
def Reply.IsFinite (r : Reply) : Prop :=
  ∀ x, r = .value x → x.isFinite = true

namespace Reply

theorem refused_isFinite (e : Refusal) : (refused e).IsFinite := by
  intro x h
  cases h

theorem breakdown_isFinite : breakdown.IsFinite := by
  intro x h
  cases h

theorem ofFloat_isFinite (f : Builtin) (x : Float) : (ofFloat f x).IsFinite := by
  intro y h
  unfold ofFloat at h
  cases hfinite : finite f.symbol x with
  | error e =>
    rw [hfinite] at h
    cases h
  | ok z =>
    rw [hfinite] at h
    cases h
    exact isFinite_of_finite hfinite

theorem ofAir_isFinite (f : Builtin) (r : Except (MoistAir.Fault Float) Float) :
    (ofAir f r).IsFinite := by
  cases r with
  | ok x => exact ofFloat_isFinite f x
  | error fault => exact refused_isFinite _

end Reply

namespace MathFunction

theorem cut_isFinite (x least greatest : Float) : (cut x least greatest).IsFinite := by
  unfold cut
  split
  · exact Reply.ofFloat_isFinite _ _
  · exact Reply.breakdown_isFinite

theorem plain_isFinite (f : MathFunction) (args : List Float) : (f.plain args).IsFinite := by
  unfold plain
  dsimp only
  split <;> first
    | exact Reply.ofFloat_isFinite _ _
    | exact Reply.refused_isFinite _
    | (split <;> first | exact Reply.ofFloat_isFinite _ _ | exact Reply.refused_isFinite _)

theorem evaluate_isFinite (f : MathFunction) (args : List Float) (g : Generator) :
    (f.evaluate args g).1.IsFinite := by
  fun_cases MathFunction.evaluate f args g with
  | case1 low high =>
    unfold drawUniform
    split
    · exact Reply.refused_isFinite _
    · exact Reply.ofFloat_isFinite _ _
  | case2 mean deviation least greatest =>
    unfold drawNormal
    split
    · exact Reply.refused_isFinite _
    · split
      · exact cut_isFinite _ _ _
      · exact cut_isFinite _ _ _
  | case3 seed => exact Reply.ofFloat_isFinite _ _
  | case4 => exact plain_isFinite _ _

end MathFunction

theorem AirFunction.evaluate_isFinite (f : AirFunction) (args : List Float) :
    (f.evaluate args).IsFinite := by
  unfold evaluate
  dsimp only
  split <;> first | exact Reply.ofAir_isFinite _ _ | exact Reply.refused_isFinite _

/-- The standard routines give finite numbers only. -/
theorem Routines.standard_isFinite (f : Builtin) (args : List Float) (g : Generator) :
    (Routines.standard f args g).1.IsFinite := by
  cases f with
  | math f => exact f.evaluate_isFinite args g
  | air f => exact f.evaluate_isFinite args
  | message f => exact Reply.refused_isFinite _
  | trend f => exact Reply.refused_isFinite _
  | curveValue => exact Reply.refused_isFinite _

/-- Curves give finite numbers only. -/
theorem Curves.value_isFinite {l : Curves} {index : Nat} {inputs : List Float} {x : Float}
    (h : l.value index inputs = .ok x) : x.isFinite = true := by
  unfold Curves.value at h
  split at h
  · unfold Curve.evaluate at h
    split at h
    · cases h
    · split at h
      · exact isFinite_of_finite h
      · cases h
  · cases h

end Erl
