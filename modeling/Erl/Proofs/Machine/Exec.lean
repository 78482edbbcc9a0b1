/-
  Erl.Proofs.Machine.Exec

  Computations on the machine, one after another.

  A computation starts from a machine and ends with a value or with an interrupt, each time
  with a machine.  A second computation runs exactly when the first ends with a value.

  Two computations run in parallel if from machines that are related they end in the same way, on
  machines that are related again.
-/

import Erl.Machine.Basic

namespace Erl.Exec

section

variable {α β : Type} {x : Exec α} {f g : α → Exec β} {m m' : Machine}

/-- After a value the next computation runs. -/
theorem bind_ok {a : α} (h : x m = .ok a m') : (x >>= f) m = f a m' := by
  show EStateM.bind x f m = f a m'
  rw [EStateM.bind, h]

/-- After an interrupt nothing runs. -/
theorem bind_error {e : Interrupt} (h : x m = .error e m') : (x >>= f) m = .error e m' := by
  show EStateM.bind x f m = .error e m'
  rw [EStateM.bind, h]

/-- Two computations that end with a value are two that both do. -/
theorem bind_eq_ok_iff {b : β} {m'' : Machine} :
    (x >>= f) m = .ok b m'' ↔ ∃ a m', x m = .ok a m' ∧ f a m' = .ok b m'' := by
  cases hx : x m with
  | ok a m' => simp [bind_ok hx, and_assoc]
  | error e m' => simp [bind_error hx]

/-- Computations with the same end go on alike, if what follows it does. -/
theorem bind_eq_bind {y : Exec α} (hxy : x m = y m)
    (h : ∀ a m', y m = .ok a m' → f a m' = g a m') : (x >>= f) m = (y >>= g) m := by
  cases hy : y m with
  | ok a m' => rw [bind_ok (hxy.trans hy), bind_ok hy, h a m' hy]
  | error e m' => rw [bind_error (hxy.trans hy), bind_error hy]

/-- What follows matters only at the values that a computation ends with. -/
theorem bind_congr (h : ∀ a m', x m = .ok a m' → f a m' = g a m') :
    (x >>= f) m = (x >>= g) m :=
  bind_eq_bind rfl h

end

/-! ## Two computations side by side -/

/-- Two ends with the same value, or with the same interrupt, on machines that are related. -/
inductive EndsTogether {α : Type} (rel : Machine → Machine → Prop) :
    EStateM.Result Interrupt Machine α → EStateM.Result Interrupt Machine α → Prop where
  | ok (a : α) {m m' : Machine} : rel m m' → EndsTogether rel (.ok a m) (.ok a m')
  | error (e : Interrupt) {m m' : Machine} : rel m m' → EndsTogether rel (.error e m) (.error e m')

/-- Two computations that end together from machines that are related. -/
def Parallel {α : Type} (rel : Machine → Machine → Prop) (x y : Exec α) : Prop :=
  ∀ m m' : Machine, rel m m' → EndsTogether rel (x m) (y m')

namespace Parallel

variable {α β : Type} {rel : Machine → Machine → Prop}

theorem pure (a : α) : Parallel rel (Pure.pure a) (Pure.pure a) :=
  fun _ _ h => .ok a h

theorem throw (e : Interrupt) : Parallel rel (throw e : Exec α) (throw e) :=
  fun _ _ h => .error e h

theorem bind {x y : Exec α} {f g : α → Exec β} (hx : Parallel rel x y)
    (hf : ∀ a, Parallel rel (f a) (g a)) : Parallel rel (x >>= f) (y >>= g) := by
  intro m m' h
  have hends := hx m m' h
  generalize hxm : x m = r at hends
  generalize hym : y m' = r' at hends
  cases hends with
  | ok a hnext =>
    rw [Exec.bind_ok hxm, Exec.bind_ok hym]
    exact hf a _ _ hnext
  | error e hnext =>
    rw [Exec.bind_error hxm, Exec.bind_error hym]
    exact .error e hnext

/-- What a computation does with the machine that it starts from. -/
theorem getBind {f g : Machine → Exec β}
    (hf : ∀ m m' : Machine, rel m m' → EndsTogether rel (f m m) (g m' m')) :
    Parallel rel (MonadState.get >>= f) (MonadState.get >>= g) :=
  hf

theorem modify {f g : Machine → Machine} (hf : ∀ m m' : Machine, rel m m' → rel (f m) (g m')) :
    Parallel rel (modify f : Exec PUnit) (modify g) :=
  fun m m' h => .ok PUnit.unit (hf m m' h)

end Parallel

end Erl.Exec
