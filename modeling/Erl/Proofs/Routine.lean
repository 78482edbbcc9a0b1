/-
  Erl.Proofs.Routine

  How the numeric routines end.

  Most functions are steady: their routines compute from the arguments alone and never break down.
  The standard routines break down at one place only, where a normal draw is cut to its bounds.  The
  bounds are compared before, but numbers are ordered one way or the other only if both are
  numbers.  So a draw breaks down exactly when one of the bounds is not a number.
-/

import Erl.Routine.Basic

namespace Erl

/-! ## The order of numbers -/

section Order

open Float.Model

/-- Two numbers cannot be compared exactly if one of them is not a number. -/
theorem compare_eq_none_iff (a b : UnpackedFloat) :
    a.compare b = none ↔ a.isNaN = true ∨ b.isNaN = true := by
  -- a comparison that has a result is one of numbers
  have hsome : ∀ {a b : UnpackedFloat} {o : Ordering}, a.compare b = some o → a.isNaN = false →
      b.isNaN = false → (a.compare b = none ↔ a.isNaN = true ∨ b.isNaN = true) := by
    intro a b o h ha hb
    rw [h, ha, hb]
    simp
  cases a with
  | notANumber => exact iff_of_true rfl (.inl rfl)
  | infinity s =>
    cases b with
    | notANumber => exact iff_of_true (by cases s <;> rfl) (.inr rfl)
    | infinity s' => exact hsome rfl rfl rfl
    | _ => cases s <;> exact hsome rfl rfl rfl
  | zero s =>
    cases b with
    | notANumber => exact iff_of_true rfl (.inr rfl)
    | zero s' => exact hsome rfl rfl rfl
    | infinity s' => cases s' <;> exact hsome rfl rfl rfl
    | finite s' k e h => cases s' <;> exact hsome rfl rfl rfl
  | finite s k e h =>
    cases b with
    | notANumber => exact iff_of_true (by cases s <;> rfl) (.inr rfl)
    | zero s' => cases s <;> exact hsome rfl rfl rfl
    | infinity s' => cases s' <;> exact hsome rfl rfl rfl
    | finite s' k' e' h' => cases s <;> cases s' <;> exact hsome rfl rfl rfl

/-- A comparison the other way round. -/
theorem compare_swap (a b : UnpackedFloat) : b.compare a = (a.compare b).map Ordering.swap := by
  have hthen : ∀ (e e' : Int) (k k' : Nat), (compare e' e).then (compare k' k)
      = ((compare e e').then (compare k k')).swap := by
    intro e e' k k'
    rw [Ordering.swap_then, Int.compare_swap, Nat.compare_swap]
  cases a with
  | notANumber => cases b <;> rfl
  | infinity s =>
    cases b with
    | infinity s' => cases s <;> cases s' <;> rfl
    | _ => cases s <;> rfl
  | zero s =>
    cases b with
    | infinity s' => cases s' <;> rfl
    | finite s' k e h => cases s' <;> rfl
    | _ => rfl
  | finite s k e h =>
    cases b with
    | infinity s' => cases s' <;> rfl
    | notANumber => rfl
    | zero s' => cases s <;> rfl
    | finite s' k' e' h' =>
      -- of two numbers with the same sign the exponents are compared first
      cases s with
      | positive =>
        cases s' with
        | positive => exact congrArg some (hthen e e' k k')
        | negative => rfl
      | negative =>
        cases s' with
        | positive => rfl
        | negative => exact congrArg (fun o => some o.swap) (hthen e e' k k')

theorem lt_iff_compare (a b : Float) :
    a < b ↔ a.toModel.unpack.compare b.toModel.unpack = some .lt := by
  refine (decide_eq_true_iff (p := a.toModel < b.toModel)).trans ?_
  show (a.toModel.unpack.compare b.toModel.unpack == some .lt) = true ↔ _
  rw [beq_iff_eq]

/-- Numbers that are not ordered one way are ordered the other way, if both are numbers. -/
theorem not_lt_and_not_le_iff (a b : Float) :
    ¬ a < b ∧ ¬ b ≤ a ↔ a.isNaN = true ∨ b.isNaN = true := by
  have hle : b ≤ a ↔ (b.toModel.unpack.compare a.toModel.unpack).any (·.isLE) = true :=
    decide_eq_true_iff (p := b.toModel ≤ a.toModel)
  have hnan : a.isNaN = true ∨ b.isNaN = true
      ↔ a.toModel.unpack.compare b.toModel.unpack = none :=
    (compare_eq_none_iff _ _).symm
  rw [lt_iff_compare, hle, hnan, compare_swap a.toModel.unpack]
  cases a.toModel.unpack.compare b.toModel.unpack with
  | none => simp
  | some o => cases o <;> simp

end Order

/-! ## Steady functions -/

/-- A function that neither ends the run nor draws random numbers. -/
def Builtin.isSteady : Builtin → Bool
  | .message .fatalHalt => false
  | .math .randomUniform => false
  | .math .randomNormal => false
  | .math .seedRandom => false
  | _ => true

/-- Routines that compute steady functions from the arguments alone, leave the random numbers to
    come as they are, and do not break down. -/
def Routines.AreSteady (routines : Routines) : Prop :=
  ∀ (f : Builtin) (args : List Float), f.isSteady = true →
    ∃ reply, reply ≠ .breakdown ∧ ∀ g, routines f args g = (reply, g)

theorem Reply.ofExcept_ne_breakdown (r : Except Refusal Float) : Reply.ofExcept r ≠ .breakdown := by
  cases r <;> simp [ofExcept]

theorem Reply.ofAir_ne_breakdown (f : Builtin) (r : Except (MoistAir.Fault Float) Float) :
    Reply.ofAir f r ≠ .breakdown := by
  cases r with
  | ok x => exact ofExcept_ne_breakdown _
  | error fault => simp [ofAir]

/-- Only a cut breaks down. -/
theorem MathFunction.plain_ne_breakdown (f : MathFunction) (args : List Float) :
    f.plain args ≠ .breakdown := by
  unfold plain
  dsimp only
  split <;> first
    | exact Reply.ofExcept_ne_breakdown _
    | (split <;> first | exact Reply.ofExcept_ne_breakdown _ | simp)
    | simp

theorem AirFunction.evaluate_ne_breakdown (f : AirFunction) (args : List Float) :
    f.evaluate args ≠ .breakdown := by
  unfold evaluate
  dsimp only
  split <;> first | exact Reply.ofAir_ne_breakdown _ _ | simp

/-- The routines used when the host brings none of its own are steady. -/
theorem Routines.standard_areSteady : Routines.standard.AreSteady := by
  intro f args hf
  cases f with
  | math f =>
    refine ⟨f.plain args, f.plain_ne_breakdown args, fun g => ?_⟩
    show f.evaluate args g = _
    cases f <;> first | rfl | exact absurd hf (by decide)
  | air f => exact ⟨f.evaluate args, f.evaluate_ne_breakdown args, fun g => rfl⟩
  | message f => exact ⟨_, by simp, fun g => rfl⟩
  | trend f => exact ⟨_, by simp, fun g => rfl⟩
  | curveValue => exact ⟨_, by simp, fun g => rfl⟩

/-! ## Breakdowns -/

/-- A call of the normal draw with a bound that is not a number. -/
inductive CutsToNaN : Builtin → List Float → Prop where
  | intro (mean deviation : Float) {least greatest : Float} :
      least.isNaN = true ∨ greatest.isNaN = true →
      CutsToNaN (.math .randomNormal) [mean, deviation, least, greatest]

theorem MathFunction.cut_eq_breakdown_iff (x least greatest : Float) :
    cut x least greatest = .breakdown ↔ ¬ least ≤ greatest := by
  unfold cut
  split
  · next h => simp [h, Reply.ofFloat, Reply.ofExcept_ne_breakdown]
  · next h => simp [h]

/-- A normal draw breaks down exactly when one of its bounds is not a number. -/
theorem MathFunction.drawNormal_eq_breakdown_iff (mean deviation least greatest : Float)
    (g : Generator) :
    (drawNormal mean deviation least greatest g).1 = .breakdown
      ↔ least.isNaN = true ∨ greatest.isNaN = true := by
  rw [or_comm, ← not_lt_and_not_le_iff]
  unfold drawNormal
  by_cases hlt : greatest < least
  · simp [hlt]
  · -- bounds that are not in the wrong order are in order, or one of them is not a number
    rw [if_neg hlt]
    split <;> simp [hlt, cut_eq_breakdown_iff]

/-- The standard routines break down on normal draws with a bound that is not a number, and
    nowhere else. -/
theorem Routines.standard_eq_breakdown_iff (f : Builtin) (args : List Float) (g : Generator) :
    (Routines.standard f args g).1 = .breakdown ↔ CutsToNaN f args := by
  cases f with
  | math f =>
    show (f.evaluate args g).1 = .breakdown ↔ _
    fun_cases MathFunction.evaluate f args g with
    | case1 low high =>
      refine iff_of_false (fun h => ?_) (fun h => by cases h)
      unfold MathFunction.drawUniform at h
      split at h
      · cases h
      · exact Reply.ofExcept_ne_breakdown _ h
    | case2 mean deviation least greatest =>
      rw [MathFunction.drawNormal_eq_breakdown_iff]
      refine ⟨.intro mean deviation, fun h => ?_⟩
      cases h
      assumption
    | case3 seed =>
      exact iff_of_false (Reply.ofExcept_ne_breakdown _) (fun h => by cases h)
    | case4 args f _ hnormal _ =>
      -- a normal draw with its four arguments is the case above
      refine iff_of_false (f.plain_ne_breakdown args) (fun h => ?_)
      cases h
      exact hnormal _ _ _ _ rfl rfl
  | air f => exact iff_of_false (f.evaluate_ne_breakdown args) (fun h => by cases h)
  | _ => exact iff_of_false (fun h => by cases h) (fun h => by cases h)

end Erl
