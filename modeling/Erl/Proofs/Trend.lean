/-
  Erl.Proofs.Trend

  What a trend remembers.

  A history keeps the newest of the samples that it has taken, as many as it has room for.  A
  statistic of a window is a function of the samples in the window alone: it is that of a history
  which has taken these samples and no others.  The number of samples, which an average is divided
  by and which a slope has points for, is counted apart from the window, and is its length.
-/

import Erl.Machine.Evaluate

namespace Erl

namespace History

variable {α : Type}

/-- A history after it has taken samples one after another. -/
def logAll (h : History α) (taken : List α) : History α :=
  taken.foldl log h

/-- The history with some room that has taken samples, the oldest first. -/
def taking (room : Nat) (taken : List α) : History α :=
  (empty room).logAll taken

/-! ## The newest samples -/

/-- A history that takes a sample is the newest part of what it was, with the sample. -/
theorem log_newest (capacity : Nat) (past : List α) (x : α) :
    History.log ⟨capacity, past.reverse.take capacity⟩ x
      = ⟨capacity, (past ++ [x]).reverse.take capacity⟩ := by
  unfold log
  congr 1
  rw [List.reverse_append, List.reverse_singleton, List.singleton_append]
  cases capacity with
  | zero => rfl
  | succ n =>
    -- where there is no more room the oldest sample goes
    rw [List.take_succ_cons, List.take_succ_cons, List.take_take, Nat.min_eq_left (by omega)]

theorem logAll_newest (capacity : Nat) (past taken : List α) :
    logAll ⟨capacity, past.reverse.take capacity⟩ taken
      = ⟨capacity, (past ++ taken).reverse.take capacity⟩ := by
  induction taken generalizing past with
  | nil =>
    rw [List.append_nil]
    rfl
  | cons x rest ih =>
    have hnext := ih (past ++ [x])
    rw [List.append_assoc, List.singleton_append] at hnext
    rw [logAll, List.foldl_cons, log_newest]
    exact hnext

/-- A history has the newest of the samples that it has taken, newest first. -/
theorem taking_eq (capacity : Nat) (taken : List α) :
    taking capacity taken = ⟨capacity, taken.reverse.take capacity⟩ := by
  have hall := logAll_newest capacity [] taken
  rwa [List.reverse_nil, List.take_nil, List.nil_append] at hall

/-- What there is room for is kept. -/
theorem samples_taking_reverse {room : Nat} {samples : List α} (h : samples.length ≤ room) :
    (taking room samples.reverse).samples = samples := by
  rw [taking_eq, List.reverse_reverse, List.take_of_length_le h]

theorem sample?_succ (h : History α) (i : Nat) : h.sample? (i + 1) = h.samples[i]? := by
  rw [sample?, if_neg (Nat.succ_ne_zero i), Nat.add_sub_cancel]

/-! ## Windows -/

/-- A window is missing exactly if it would be empty. -/
theorem window?_eq (h : History α) (k : Nat) :
    h.window? k = if h.samples.take k = [] then none else some (h.samples.take k) := by
  have hempty : (h.samples.isEmpty || k == 0) = true ↔ h.samples.take k = [] := by
    rw [Bool.or_eq_true, List.isEmpty_iff, beq_iff_eq, or_comm, List.take_eq_nil_iff]
  rw [window?]
  simp only [hempty]

theorem window?_eq_none_iff (h : History α) (k : Nat) :
    h.window? k = none ↔ h.samples = [] ∨ k = 0 := by
  rw [window?_eq, or_comm, ← List.take_eq_nil_iff]
  split
  · next hnil => exact iff_of_true rfl hnil
  · next hne => exact iff_of_false (Option.some_ne_none _) hne

theorem window?_eq_some_iff {h : History α} {k : Nat} {samples : List α} :
    h.window? k = some samples ↔ h.samples.take k = samples ∧ samples ≠ [] := by
  rw [window?_eq]
  split
  · next hnil =>
    rw [hnil]
    exact iff_of_false (Option.some_ne_none _).symm fun hsome => hsome.2 hsome.1.symm
  · next hne =>
    rw [Option.some.injEq]
    exact ⟨fun heq => ⟨heq, heq ▸ hne⟩, fun heq => heq.1⟩

/-- As many samples as a window asks for, or as there are, are in it. -/
theorem length_of_window? {h : History α} {k : Nat} {samples : List α}
    (hw : h.window? k = some samples) : samples.length = min k h.size := by
  rw [← (window?_eq_some_iff.1 hw).1, List.length_take, size]

/-- A window shows the newest samples of its history only. -/
theorem window?_congr {h h' : History α} {k k' : Nat}
    (hsame : h.samples.take k = h'.samples.take k') : h.window? k = h'.window? k' := by
  rw [window?_eq, window?_eq, hsame]

/-- A window that is too large shows the whole history. -/
theorem window?_of_size_le {h : History α} {k : Nat} (hk : h.size ≤ k) :
    h.window? k = h.window? h.size :=
  window?_congr (by rw [List.take_of_length_le hk, size, List.take_length])

/-- A window shows the whole of a history that has taken just the samples in it. -/
theorem window?_taking (h : History α) {k room : Nat} (hroom : min k h.size ≤ room) :
    h.window? k = (taking room (h.samples.take k).reverse).window?
      (taking room (h.samples.take k).reverse).size := by
  have hkept : (taking room (h.samples.take k).reverse).samples = h.samples.take k :=
    samples_taking_reverse (by rwa [List.length_take])
  refine window?_congr ?_
  rw [size, List.take_length, hkept]

/-! ## Statistics of windows -/

section Statistics

variable [Scalar α] (h : History α) (k : Nat)

/-- An average is divided by the number of samples in its window. -/
theorem average?_eq : h.average? k
    = (h.window? k).map fun samples => Scalar.sum samples / Scalar.ofNat samples.length := by
  rw [average?, sum?, Option.map_map]
  cases hw : h.window? k with
  | none => rfl
  | some samples =>
    rw [Option.map_some, Option.map_some, length_of_window? hw]
    rfl

/-- A direction is the slope of all points of its window. -/
theorem direction?_eq (hours : α) : h.direction? k hours
    = (h.window? k).map fun samples =>
        if samples.length < 2 then 0.0
        else slope (points samples samples.length hours) samples.length := by
  rw [direction?]
  cases hw : h.window? k with
  | none =>
    have hzero : min k h.size = 0 := by
      rcases (h.window?_eq_none_iff k).1 hw with hnil | rfl
      · rw [size, hnil, List.length_nil, Nat.min_zero]
      · exact Nat.zero_min _
    rw [if_pos hzero]
    rfl
  | some samples =>
    obtain ⟨htake, hne⟩ := window?_eq_some_iff.1 hw
    have hlength := length_of_window? hw
    have hpositive : min k h.size ≠ 0 := by
      rw [← hlength]
      exact fun hzero => hne (List.length_eq_zero_iff.1 hzero)
    -- the points are made of the newest samples, which are those of the window
    have hpoints : points h.samples (min k h.size) hours
        = points samples (min k h.size) hours := by
      rw [points, points, ← htake, List.take_take, Nat.min_assoc, Nat.min_comm h.size k,
        ← Nat.min_assoc, Nat.min_self]
    rw [if_neg hpositive, Option.map_some, hlength, hpoints, apply_ite some]

end Statistics

end History

/-- Every statistic but a single sample is a function of the samples in its window. -/
theorem TrendFunction.statistic_eq_map {f : TrendFunction} (hf : f ≠ .value) (hours : Float) :
    ∃ g : List Float → Float, ∀ (h : History Float) (k : Nat),
      f.statistic h (some k) hours = (h.window? k).map g := by
  cases f with
  | value => exact absurd rfl hf
  | average => exact ⟨_, History.average?_eq⟩
  | max => exact ⟨_, fun _ _ => rfl⟩
  | min => exact ⟨_, fun _ _ => rfl⟩
  | direction => exact ⟨_, fun h k => h.direction?_eq k hours⟩
  | sum => exact ⟨_, fun _ _ => rfl⟩

namespace History

/-- A trend sees exactly the newest samples.  A history has the last samples that it has taken,
    newest first, and gives each of them by its age.  A statistic of a window is missing exactly
    if the history or the window is empty; it is that of a whole history, with any room, which has
    taken only the samples of the window, and too large a window is the whole history. -/
theorem statistics_see_newest (capacity : Nat) (taken : List Float) (hours : Float) :
    (taking capacity taken).samples = (taken.drop (taken.length - capacity)).reverse
      ∧ (∀ (i : Nat) (hi : i < (taking capacity taken).size),
          (taking capacity taken).sample? (i + 1)
            = some ((taking capacity taken).samples.get ⟨i, hi⟩))
      ∧ (∀ age, age = 0 ∨ (taking capacity taken).size < age →
          (taking capacity taken).sample? age = none)
      ∧ ∀ (f : TrendFunction) (k : Nat), f ≠ .value →
        (f.statistic (taking capacity taken) (some k) hours = none
            ↔ (taking capacity taken).samples = [] ∨ k = 0)
          ∧ (∀ room fresh, min k (taking capacity taken).size ≤ room →
              fresh = taking room ((taking capacity taken).samples.take k).reverse →
              f.statistic (taking capacity taken) (some k) hours
                = f.statistic fresh (some fresh.size) hours)
          ∧ ((taking capacity taken).size ≤ k → f.statistic (taking capacity taken) (some k) hours
              = f.statistic (taking capacity taken) (some (taking capacity taken).size) hours) := by
  refine ⟨?_, fun i hi => ?_, fun age hage => ?_, fun f k hf => ?_⟩
  · rw [taking_eq, List.reverse_drop, List.take_eq_take_iff, List.length_reverse]
    omega
  · rw [sample?_succ]
    exact List.getElem?_eq_getElem hi
  · rcases hage with rfl | hage
    · rfl
    · obtain ⟨i, rfl⟩ := Nat.exists_eq_succ_of_ne_zero (Nat.ne_zero_of_lt hage)
      rw [sample?_succ]
      exact List.getElem?_eq_none (Nat.le_of_lt_succ hage)
  · -- each part is one about windows
    obtain ⟨g, hg⟩ := f.statistic_eq_map hf hours
    refine ⟨?_, fun room fresh hroom hfresh => ?_, fun hk => ?_⟩
    · rw [hg, Option.map_eq_none_iff, window?_eq_none_iff]
    · rw [hg, hg, hfresh, window?_taking _ hroom]
    · rw [hg, hg, window?_of_size_le hk]

/-- Five samples where there is room for three: the mean of the newest two, and of four, which are
    not there. -/
theorem statistics_see_newest_five :
    (taking 3 [1.0, 2.0, 3.0, 4.0, 5.0]).samples = [5.0, 4.0, 3.0]
      ∧ (taking 3 [1.0, 2.0, 3.0, 4.0, 5.0]).sample? 3 = some 3.0
      ∧ (taking 3 [1.0, 2.0, 3.0, 4.0, 5.0]).sample? 4 = none
      ∧ TrendFunction.average.statistic (taking 3 [1.0, 2.0, 3.0, 4.0, 5.0]) (some 2) 0.5 ≠ none
      ∧ TrendFunction.average.statistic (taking 3 [1.0, 2.0, 3.0, 4.0, 5.0]) (some 2) 0.5
          = TrendFunction.average.statistic (taking 2 [4.0, 5.0]) (some 2) 0.5
      ∧ TrendFunction.average.statistic (taking 3 [1.0, 2.0, 3.0, 4.0, 5.0]) (some 4) 0.5
          = TrendFunction.average.statistic (taking 3 [1.0, 2.0, 3.0, 4.0, 5.0]) (some 3) 0.5 := by
  obtain ⟨hsamples, hin, hout, hstatistics⟩ :=
    statistics_see_newest 3 [1.0, 2.0, 3.0, 4.0, 5.0] 0.5
  obtain ⟨hnone, hfresh, -⟩ := hstatistics .average 2 (by decide)
  obtain ⟨-, -, hlarge⟩ := hstatistics .average 4 (by decide)
  refine ⟨hsamples, hin 2 (by decide), hout 4 (.inr (by decide)), fun h => ?_,
    hfresh 2 (taking 2 [4.0, 5.0]) (by decide) rfl, hlarge (by decide)⟩
  rcases hnone.1 h with hempty | hzero
  · cases hempty
  · cases hzero

end History

end Erl
