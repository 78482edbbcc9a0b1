/-
  Erl.Proofs.Bisection

  Bisection keeps its bracket.

  In exact arithmetic each halving keeps an interval with the function below the target at its
  lower end and not below it at its upper end, and halves the width.  So the answer is the middle
  of such an interval, and a function that does not decrease can cross the target nowhere but
  inside it.  Nothing is assumed of the function until then: it may fail anywhere, and a failure at
  a point that is tried is the answer.
-/

import Mathlib.Algebra.Order.AbsoluteValue.Basic
import Mathlib.Tactic.Ring
import Erl.Bisection
import Erl.Proofs.Scalar

namespace Erl.Bisection

variable {ε : Type} {f : ℚ → Except ε ℚ} {target low high : ℚ}

/-! ## Intervals -/

theorem middle_eq (low high : ℚ) : middle low high = (low + high) / 2 := by
  unfold middle
  norm_num
  ring

theorem low_le_middle (h : low ≤ high) : low ≤ middle low high := by
  rw [middle_eq]
  linarith

theorem middle_le_high (h : low ≤ high) : middle low high ≤ high := by
  rw [middle_eq]
  linarith

/-- The function is below the target at the lower end of an interval, and has reached it at the
    upper end. -/
structure Brackets (f : ℚ → Except ε ℚ) (target low high : ℚ) : Prop where
  below : ∃ y, f low = .ok y ∧ y < target
  reached : ∃ y, f high = .ok y ∧ target ≤ y

/-- An interval that is left of a larger one after a number of halvings. -/
structure Narrowed (f : ℚ → Except ε ℚ) (target low high : ℚ) (n : Nat) (a b : ℚ) : Prop where
  low_le : low ≤ a
  le_high : b ≤ high
  width : b - a = (high - low) / 2 ^ n
  brackets : Brackets f target a b

theorem Narrowed.refl (h : Brackets f target low high) : Narrowed f target low high 0 low high :=
  ⟨le_refl low, le_refl high, by rw [pow_zero, div_one], h⟩

theorem Narrowed.of_upper {n : Nat} {a b : ℚ} (hle : low ≤ high)
    (h : Narrowed f target (middle low high) high n a b) :
    Narrowed f target low high (n + 1) a b := by
  refine ⟨(low_le_middle hle).trans h.low_le, h.le_high, ?_, h.brackets⟩
  rw [h.width, middle_eq, pow_succ]
  ring

theorem Narrowed.of_lower {n : Nat} {a b : ℚ} (hle : low ≤ high)
    (h : Narrowed f target low (middle low high) n a b) :
    Narrowed f target low high (n + 1) a b := by
  refine ⟨h.low_le, h.le_high.trans (middle_le_high hle), ?_, h.brackets⟩
  rw [h.width, middle_eq, pow_succ]
  ring

/-! ## Points tried -/

/-- The points at which `halve` evaluates the function, in this order.  After a failure there are
    no more. -/
def probes (f : ℚ → Except ε ℚ) (target : ℚ) : Nat → ℚ → ℚ → List ℚ
  | 0, _, _ => []
  | n + 1, low, high =>
    middle low high ::
      match f (middle low high) with
      | .error _ => []
      | .ok y =>
        if y < target then probes f target n (middle low high) high
        else probes f target n low (middle low high)

/-- The points at which `solve` evaluates the function, in this order. -/
def tried (f : ℚ → Except ε ℚ) (low high target : ℚ) : List ℚ :=
  low ::
    match f low with
    | .error _ => []
    | .ok least =>
      if target ≤ least then []
      else
        high ::
          match f high with
          | .error _ => []
          | .ok greatest => if greatest ≤ target then [] else probes f target steps low high

/-- The points that are tried lie in the interval. -/
theorem mem_probes {n : Nat} {x : ℚ} (hle : low ≤ high) (hx : x ∈ probes f target n low high) :
    low ≤ x ∧ x ≤ high := by
  induction n generalizing low high with
  | zero => cases hx
  | succ n ih =>
    rw [probes, List.mem_cons] at hx
    rcases hx with rfl | hx
    · exact ⟨low_le_middle hle, middle_le_high hle⟩
    · split at hx
      · cases hx
      · split at hx
        · obtain ⟨hlow, hhigh⟩ := ih (middle_le_high hle) hx
          exact ⟨(low_le_middle hle).trans hlow, hhigh⟩
        · obtain ⟨hlow, hhigh⟩ := ih (low_le_middle hle) hx
          exact ⟨hlow, hhigh.trans (middle_le_high hle)⟩

/-! ## Halving -/

/-- As long as the function does not fail, halving keeps the bracket. -/
theorem halve_of_ok {n : Nat} (hle : low ≤ high) (hbrackets : Brackets f target low high)
    (hok : ∀ x ∈ probes f target n low high, ∃ y, f x = .ok y) :
    ∃ a b, Narrowed f target low high n a b ∧ halve f target n low high = .ok (middle a b) := by
  induction n generalizing low high with
  | zero => exact ⟨low, high, .refl hbrackets, rfl⟩
  | succ n ih =>
    obtain ⟨y, hy⟩ := hok (middle low high) (List.mem_cons_self ..)
    simp only [probes, hy, List.mem_cons, forall_eq_or_imp] at hok
    rw [halve]
    simp only [hy]
    by_cases hlt : y < target
    · rw [if_pos hlt] at hok ⊢
      have hupper : Brackets f target (middle low high) high := ⟨⟨y, hy, hlt⟩, hbrackets.reached⟩
      obtain ⟨a, b, hnarrowed, heq⟩ := ih (middle_le_high hle) hupper hok.2
      exact ⟨a, b, hnarrowed.of_upper hle, heq⟩
    · rw [if_neg hlt] at hok ⊢
      have hlower : Brackets f target low (middle low high) :=
        ⟨hbrackets.below, ⟨y, hy, not_lt.1 hlt⟩⟩
      obtain ⟨a, b, hnarrowed, heq⟩ := ih (low_le_middle hle) hlower hok.2
      exact ⟨a, b, hnarrowed.of_lower hle, heq⟩

/-- A failure at a point that is tried is the answer. -/
theorem halve_of_error {n : Nat} {x : ℚ} {e : ε} (hx : x ∈ probes f target n low high)
    (he : f x = .error e) : halve f target n low high = .error e := by
  induction n generalizing low high with
  | zero => cases hx
  | succ n ih =>
    rw [halve]
    rw [probes, List.mem_cons] at hx
    cases hmid : f (middle low high) with
    | error e' =>
      simp only [hmid, List.not_mem_nil, or_false] at hx
      rw [hx, hmid] at he
      exact he
    | ok y =>
      simp only [hmid] at hx ⊢
      rcases hx with rfl | hx
      · rw [hmid] at he
        cases he
      · split at hx
        · next hlt =>
          rw [if_pos hlt]
          exact ih hx
        · next hlt =>
          rw [if_neg hlt]
          exact ih hx

/-- Only the points that are tried matter. -/
theorem halve_congr {g : ℚ → Except ε ℚ} {n : Nat}
    (h : ∀ x ∈ probes f target n low high, g x = f x) :
    halve g target n low high = halve f target n low high := by
  induction n generalizing low high with
  | zero => rfl
  | succ n ih =>
    simp only [probes, List.mem_cons, forall_eq_or_imp] at h
    obtain ⟨hmid, hrest⟩ := h
    rw [halve, halve]
    simp only [hmid]
    cases hy : f (middle low high) with
    | error e => rfl
    | ok y =>
      simp only [hy] at hrest ⊢
      split at hrest
      · next hlt =>
        rw [if_pos hlt, if_pos hlt]
        exact ih hrest
      · next hlt =>
        rw [if_neg hlt, if_neg hlt]
        exact ih hrest

/-! ## Solving -/

theorem solve_eq_low {least : ℚ} (hlow : f low = .ok least) (h : target ≤ least) :
    solve f low high target = .ok low := by
  unfold solve
  simp only [hlow, if_pos h]

section Between

variable {least : ℚ} (hlow : f low = .ok least) (hleast : least < target)
include hlow hleast

theorem solve_eq_high {greatest : ℚ} (hhigh : f high = .ok greatest) (h : greatest ≤ target) :
    solve f low high target = .ok high := by
  unfold solve
  simp only [hlow, if_neg (not_le.2 hleast), hhigh, if_pos h]

variable {greatest : ℚ} (hhigh : f high = .ok greatest) (hgreatest : target < greatest)
include hhigh hgreatest

theorem solve_eq_halve : solve f low high target = halve f target steps low high := by
  unfold solve
  simp only [hlow, if_neg (not_le.2 hleast), hhigh, if_neg (not_le.2 hgreatest)]

theorem tried_eq_probes :
    tried f low high target = low :: high :: probes f target steps low high := by
  unfold tried
  simp only [hlow, if_neg (not_le.2 hleast), hhigh, if_neg (not_le.2 hgreatest)]

/-- A target between the values at the ends stays between those at the ends of the interval whose
    middle is the answer. -/
theorem solve_of_ok (hle : low ≤ high)
    (hok : ∀ x ∈ tried f low high target, ∃ y, f x = .ok y) :
    ∃ a b, Narrowed f target low high steps a b
      ∧ solve f low high target = .ok (middle a b) := by
  have hbrackets : Brackets f target low high :=
    ⟨⟨least, hlow, hleast⟩, ⟨greatest, hhigh, hgreatest.le⟩⟩
  rw [solve_eq_halve hlow hleast hhigh hgreatest]
  refine halve_of_ok hle hbrackets fun x hx => hok x ?_
  rw [tried_eq_probes hlow hleast hhigh hgreatest]
  exact List.mem_cons_of_mem low (List.mem_cons_of_mem high hx)

end Between

theorem solve_of_error {x : ℚ} {e : ε} (hx : x ∈ tried f low high target)
    (he : f x = .error e) : solve f low high target = .error e := by
  unfold tried at hx
  unfold solve
  rcases List.mem_cons.1 hx with rfl | hx
  · simp only [he]
  · cases hlow : f low with
    | error e' => simp [hlow] at hx
    | ok least =>
      simp only [hlow] at hx ⊢
      split at hx
      · cases hx
      · next hleast =>
        rw [if_neg hleast]
        rcases List.mem_cons.1 hx with rfl | hx
        · simp only [he]
        · cases hhigh : f high with
          | error e' => simp [hhigh] at hx
          | ok greatest =>
            simp only [hhigh] at hx ⊢
            split at hx
            · cases hx
            · next hgreatest =>
              rw [if_neg hgreatest]
              exact halve_of_error hx he

theorem solve_congr {g : ℚ → Except ε ℚ} (h : ∀ x ∈ tried f low high target, g x = f x) :
    solve g low high target = solve f low high target := by
  unfold tried at h
  unfold solve
  rw [List.forall_mem_cons] at h
  obtain ⟨hlow, h⟩ := h
  rw [hlow]
  cases hleast : f low with
  | error e => rfl
  | ok least =>
    simp only [hleast] at h ⊢
    split
    · rfl
    · next hlt =>
      rw [if_neg hlt, List.forall_mem_cons] at h
      obtain ⟨hhigh, h⟩ := h
      rw [hhigh]
      cases hgreatest : f high with
      | error e => rfl
      | ok greatest =>
        simp only [hgreatest] at h ⊢
        split
        · rfl
        · next hgt =>
          rw [if_neg hgt] at h
          exact halve_congr h

/-! ## Crossing -/

/-- The function does not decrease on an interval, where it does not fail. -/
def NonDecreasing (f : ℚ → Except ε ℚ) (low high : ℚ) : Prop :=
  ∀ x y u v, low ≤ x → x ≤ y → y ≤ high → f x = .ok u → f y = .ok v → u ≤ v

/-- The function crosses the target at a point of an interval: as close to the point as one likes
    there are points where it is below the target, and points where it has reached it.  The target
    need not be a value of the function; where the function stays at the target for a while, it
    crosses it where it gets there. -/
def CrossesAt (f : ℚ → Except ε ℚ) (low high target x : ℚ) : Prop :=
  ∀ r > 0,
    (∃ y u, low ≤ y ∧ y ≤ high ∧ |y - x| < r ∧ f y = .ok u ∧ u < target)
      ∧ ∃ z v, low ≤ z ∧ z ≤ high ∧ |z - x| < r ∧ f z = .ok v ∧ target ≤ v

/-- A function crosses the target at the first point where it has reached it. -/
theorem CrossesAt.of_first {x v : ℚ} (hlow : low < x) (hhigh : x ≤ high) (hx : f x = .ok v)
    (hreached : target ≤ v)
    (hbelow : ∀ y, low ≤ y → y < x → ∃ u, f y = .ok u ∧ u < target) :
    CrossesAt f low high target x := by
  intro r hr
  have hlt : max low (x - r / 2) < x := max_lt hlow (by linarith)
  obtain ⟨u, hu, hutarget⟩ := hbelow _ (le_max_left low (x - r / 2)) hlt
  refine ⟨⟨_, u, le_max_left _ _, hlt.le.trans hhigh, ?_, hu, hutarget⟩,
    x, v, hlow.le, hhigh, ?_, hx, hreached⟩
  · have hclose := le_max_right low (x - r / 2)
    rw [abs_lt]
    constructor <;> linarith
  · rw [sub_self, abs_zero]
    exact hr

/-- A function that does not decrease crosses the target inside every bracket. -/
theorem Narrowed.crossing_mem {n : Nat} {a b x : ℚ} (h : Narrowed f target low high n a b)
    (hle : low ≤ high) (hf : NonDecreasing f low high) (hx : CrossesAt f low high target x) :
    a ≤ x ∧ x ≤ b := by
  obtain ⟨u, hu, hutarget⟩ := h.brackets.below
  obtain ⟨v, hv, hvtarget⟩ := h.brackets.reached
  have hwidth : 0 ≤ (high - low) / 2 ^ n := div_nonneg (by linarith) (by positivity)
  have hab : a ≤ b := by linarith [h.width]
  constructor
  · -- closer to `x` than `a` is, the function would have reached the target
    by_contra hlt
    obtain ⟨-, z, w, hlow, -, hclose, hz, hwtarget⟩ := hx (a - x) (by linarith)
    have hza : z ≤ a := by linarith [(abs_lt.1 hclose).2]
    have := hf z a w u hlow hza (hab.trans h.le_high) hz hu
    linarith
  · by_contra hlt
    obtain ⟨⟨y, w, -, hhigh, hclose, hy, hwtarget⟩, -⟩ := hx (x - b) (by linarith)
    have hby : b ≤ y := by linarith [(abs_lt.1 hclose).1]
    have := hf b y v w (h.low_le.trans hab) hby hhigh hv hy
    linarith

/-- Every crossing is within half the width of the bracket. -/
theorem Narrowed.abs_sub_middle_le {n : Nat} {a b x : ℚ} (h : Narrowed f target low high n a b)
    (hle : low ≤ high) (hf : NonDecreasing f low high) (hx : CrossesAt f low high target x) :
    |x - middle a b| ≤ (high - low) / 2 ^ (n + 1) := by
  obtain ⟨hax, hxb⟩ := h.crossing_mem hle hf hx
  have hhalf : (high - low) / 2 ^ (n + 1) = (b - a) / 2 := by
    rw [h.width, pow_succ]
    ring
  rw [hhalf, middle_eq, abs_le]
  constructor <;> linarith

/-- The function is defined on an interval and increases there. -/
structure Increasing (f : ℚ → Except ε ℚ) (low high : ℚ) : Prop where
  defined : ∀ x, low ≤ x → x ≤ high → ∃ y, f x = .ok y
  lt : ∀ x y u v, low ≤ x → x < y → y ≤ high → f x = .ok u → f y = .ok v → u < v

theorem Increasing.nonDecreasing (h : Increasing f low high) : NonDecreasing f low high := by
  intro x y u v hlow hxy hhigh hu hv
  rcases hxy.lt_or_eq with hxy | rfl
  · exact (h.lt x y u v hlow hxy hhigh hu hv).le
  · rw [hu] at hv
    cases hv
    exact le_rfl

/-- From the value of an increasing function at a point bisection finds the point again, up to half
    the width of the last bracket. -/
theorem solve_inverts (hf : Increasing f low high) {x y : ℚ} (hlow : low ≤ x) (hhigh : x ≤ high)
    (hx : f x = .ok y) :
    ∃ m, solve f low high y = .ok m ∧ |x - m| ≤ (high - low) / 2 ^ (steps + 1) := by
  have hle : low ≤ high := hlow.trans hhigh
  have hwidth : 0 ≤ (high - low) / 2 ^ (steps + 1) := div_nonneg (by linarith) (by positivity)
  -- at an end the point is found exactly
  rcases hlow.eq_or_lt with rfl | hlow
  · refine ⟨low, solve_eq_low hx le_rfl, ?_⟩
    rw [sub_self, abs_zero]
    exact hwidth
  obtain ⟨least, hleast⟩ := hf.defined low le_rfl hle
  have hbelow : least < y := hf.lt low x least y le_rfl hlow hhigh hleast hx
  rcases hhigh.eq_or_lt with rfl | hhigh
  · refine ⟨x, solve_eq_high hleast hbelow hx le_rfl, ?_⟩
    rw [sub_self, abs_zero]
    exact hwidth
  obtain ⟨greatest, hgreatest⟩ := hf.defined high hle le_rfl
  have habove : y < greatest := hf.lt x high y greatest hlow.le hhigh le_rfl hx hgreatest
  have hok : ∀ z ∈ tried f low high y, ∃ v, f z = .ok v := by
    intro z hz
    rw [tried_eq_probes hleast hbelow hgreatest habove, List.mem_cons, List.mem_cons] at hz
    rcases hz with rfl | rfl | hz
    · exact ⟨least, hleast⟩
    · exact ⟨greatest, hgreatest⟩
    · exact hf.defined z (mem_probes hle hz).1 (mem_probes hle hz).2
  have hcrosses : CrossesAt f low high y x := by
    refine .of_first hlow hhigh.le hx le_rfl fun z hz hzx => ?_
    obtain ⟨v, hv⟩ := hf.defined z hz (hzx.le.trans hhigh.le)
    exact ⟨v, hv, hf.lt z x v y hz hzx hhigh.le hv hx⟩
  obtain ⟨a, b, hnarrowed, hsolve⟩ := solve_of_ok hleast hbelow hgreatest habove hle hok
  exact ⟨middle a b, hsolve, hnarrowed.abs_sub_middle_le hle hf.nonDecreasing hcrosses⟩

/-- Bisection keeps its bracket.  A target at or beyond the value at an end gives that end.
    Otherwise, if the function does not fail at a point that is tried, the answer is the middle of
    an interval inside the given one, of its width over `2 ^ 100`, with the function below the
    target at the lower end and not below it at the upper end; a function that does not decrease
    crosses the target only within the width over `2 ^ 101` of the answer.  A failure at a point
    that is tried is the answer, and no other point matters. -/
theorem solve_keeps_bracket (f : ℚ → Except ε ℚ) {low high : ℚ} (hlt : low < high) (target : ℚ) :
    (∀ least, f low = .ok least → target ≤ least → solve f low high target = .ok low)
      ∧ (∀ least greatest, f low = .ok least → least < target → f high = .ok greatest →
          greatest ≤ target → solve f low high target = .ok high)
      ∧ (∀ least greatest, f low = .ok least → least < target → f high = .ok greatest →
          target < greatest → (∀ x ∈ tried f low high target, ∃ y, f x = .ok y) →
          ∃ a b u v, low ≤ a ∧ b ≤ high ∧ b - a = (high - low) / 2 ^ 100
            ∧ f a = .ok u ∧ u < target ∧ f b = .ok v ∧ target ≤ v
            ∧ solve f low high target = .ok ((a + b) / 2)
            ∧ (NonDecreasing f low high → ∀ x, CrossesAt f low high target x →
                |x - (a + b) / 2| ≤ (high - low) / 2 ^ 101))
      ∧ (∀ x ∈ tried f low high target, ∀ e, f x = .error e →
          solve f low high target = .error e)
      ∧ ∀ g : ℚ → Except ε ℚ, (∀ x ∈ tried f low high target, g x = f x) →
          solve g low high target = solve f low high target := by
  refine ⟨fun least => solve_eq_low, fun least greatest hlow hleast => solve_eq_high hlow hleast,
    ?_, fun x hx e => solve_of_error hx, fun g => solve_congr⟩
  intro least greatest hlow hleast hhigh hgreatest hok
  obtain ⟨a, b, hnarrowed, hsolve⟩ :=
    solve_of_ok hlow hleast hhigh hgreatest hlt.le hok
  obtain ⟨u, hu, hbelow⟩ := hnarrowed.brackets.below
  obtain ⟨v, hv, hreached⟩ := hnarrowed.brackets.reached
  refine ⟨a, b, u, v, hnarrowed.low_le, hnarrowed.le_high, hnarrowed.width, hu, hbelow, hv,
    hreached, ?_, fun hf x hx => ?_⟩
  · rw [hsolve, middle_eq]
  · rw [← middle_eq]
    exact hnarrowed.abs_sub_middle_le hlt.le hf hx

/-- The square root of four; and a square that cannot be taken at the first point halfway. -/
theorem solve_keeps_bracket_square :
    (∃ m, solve (fun x : ℚ => (.ok (x * x) : Except Unit ℚ)) 0 3 4 = .ok m
        ∧ |2 - m| ≤ 3 / 2 ^ 101)
      ∧ solve (fun x : ℚ => if x = 3 / 2 then .error () else .ok (x * x)) 0 3 4 = .error () := by
  have hpositive : (0 : ℚ) < 3 := by norm_num
  constructor
  · obtain ⟨-, -, hbetween, -, -⟩ :=
      solve_keeps_bracket (fun x => (.ok (x * x) : Except Unit ℚ)) hpositive 4
    obtain ⟨a, b, -, -, -, -, -, -, -, -, -, hsolve, hcrossing⟩ :=
      hbetween 0 9 (by norm_num) (by norm_num) (by norm_num) (by norm_num) fun x _ => ⟨x * x, rfl⟩
    have hf : NonDecreasing (fun x => (.ok (x * x) : Except Unit ℚ)) 0 3 := by
      intro x y u v hx hxy hy hu hv
      cases hu
      cases hv
      exact mul_self_le_mul_self hx hxy
    have htwo : CrossesAt (fun x => (.ok (x * x) : Except Unit ℚ)) 0 3 4 2 := by
      refine .of_first (by norm_num) (by norm_num) rfl (by norm_num) fun y hy hlt => ?_
      exact ⟨y * y, rfl, by nlinarith⟩
    have hclose := hcrossing hf 2 htwo
    rw [sub_zero] at hclose
    exact ⟨(a + b) / 2, hsolve, hclose⟩
  · obtain ⟨-, -, -, herror, -⟩ :=
      solve_keeps_bracket (fun x => if x = 3 / 2 then .error () else .ok (x * x)) hpositive 4
    refine herror (3 / 2) ?_ () (if_pos rfl)
    have hmiddle : (3 / 2 : ℚ) = middle 0 3 := by
      rw [middle_eq]
      norm_num
    rw [tried_eq_probes (if_neg (by norm_num)) (by norm_num) (if_neg (by norm_num))
      (by norm_num)]
    exact List.mem_cons_of_mem _ (List.mem_cons_of_mem _ (List.mem_cons.2 (.inl hmiddle)))

end Erl.Bisection
