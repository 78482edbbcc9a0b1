/-
  Erl.Proofs.Trend.Direction

  The direction of a trend.

  In exact arithmetic the least-squares slope of points is a mean of the slopes of all pairs of
  points, and a pair counts by the square of the time between its points.  So the slope of samples
  that rise is positive, that of samples that fall is negative, and samples on a line have the slope
  of the line.  Only differences of samples matter, and the slope is linear in them.
-/

import Mathlib.Algebra.Order.BigOperators.Group.List
import Mathlib.Algebra.BigOperators.Ring.List
import Mathlib.Tactic.FieldSimp
import Mathlib.Tactic.Ring
import Erl.Proofs.Scalar
import Erl.Proofs.Trend

namespace Erl

/-! ## Sums over pairs -/

section Pairs

variable {α : Type}

/-- The sum of a function over all pairs of a list, each taken once in the order of the list. -/
def overPairs (f : α → α → ℚ) : List α → ℚ
  | [] => 0
  | p :: rest => (rest.map (f p)).sum + overPairs f rest

theorem overPairs_congr {f g : α → α → ℚ} {l : List α}
    (h : l.Pairwise fun p q => f p q = g p q) : overPairs f l = overPairs g l := by
  induction l with
  | nil => rfl
  | cons p rest ih =>
    obtain ⟨hfirst, hrest⟩ := List.pairwise_cons.1 h
    rw [overPairs, overPairs, List.map_congr_left hfirst, ih hrest]

theorem overPairs_mul_left (c : ℚ) (f : α → α → ℚ) (l : List α) :
    overPairs (fun p q => c * f p q) l = c * overPairs f l := by
  induction l with
  | nil => exact (mul_zero c).symm
  | cons p rest ih => rw [overPairs, overPairs, List.sum_map_mul_left, ih, mul_add]

theorem overPairs_map {β : Type} (f : β → β → ℚ) (g : α → β) (l : List α) :
    overPairs f (l.map g) = overPairs (fun p q => f (g p) (g q)) l := by
  induction l with
  | nil => rfl
  | cons p rest ih =>
    rw [List.map_cons, overPairs, overPairs, List.map_map, ih]
    rfl

theorem overPairs_nonneg {f : α → α → ℚ} {l : List α} (h : l.Pairwise fun p q => 0 < f p q) :
    0 ≤ overPairs f l := by
  induction l with
  | nil => exact le_refl 0
  | cons p rest ih =>
    obtain ⟨hfirst, hrest⟩ := List.pairwise_cons.1 h
    have hsum : 0 ≤ (rest.map (f p)).sum :=
      List.sum_nonneg (List.forall_mem_map.2 fun q hq => (hfirst q hq).le)
    exact add_nonneg hsum (ih hrest)

/-- What is positive for every pair is positive in sum, if there is a pair. -/
theorem overPairs_pos {f : α → α → ℚ} {l : List α} (h : l.Pairwise fun p q => 0 < f p q)
    (hlength : 2 ≤ l.length) : 0 < overPairs f l := by
  cases l with
  | nil => simp at hlength
  | cons p rest =>
    obtain ⟨hfirst, hrest⟩ := List.pairwise_cons.1 h
    have hne : rest.map (f p) ≠ [] := by
      rintro hnil
      rw [List.map_eq_nil_iff.1 hnil] at hlength
      simp at hlength
    have hsum : 0 < (rest.map (f p)).sum :=
      List.sum_pos _ (List.forall_mem_map.2 hfirst) hne
    exact add_pos_of_pos_of_nonneg hsum (overPairs_nonneg hrest)

variable (f g : α → ℚ)

/-- A sum of products of distances from two fixed numbers. -/
theorem sum_distances (a b : ℚ) (l : List α) :
    (l.map fun p => (f p - a) * (g p - b)).sum
      = (l.map fun p => f p * g p).sum - a * (l.map g).sum - b * (l.map f).sum
        + l.length * (a * b) := by
  induction l with
  | nil => simp
  | cons p rest ih =>
    simp only [List.map_cons, List.sum_cons, List.length_cons, ih]
    push_cast
    ring

/-- The products of the distances in all pairs. -/
theorem overPairs_distances (l : List α) :
    overPairs (fun p q => (f q - f p) * (g q - g p)) l
      = l.length * (l.map fun p => f p * g p).sum - (l.map f).sum * (l.map g).sum := by
  induction l with
  | nil => simp [overPairs]
  | cons p rest ih =>
    rw [overPairs, sum_distances, ih]
    simp only [List.map_cons, List.sum_cons, List.length_cons]
    push_cast
    ring

/-- The products of the distances from the means are, up to the number of elements, those of the
    distances in all pairs. -/
theorem length_mul_sum_distances {l : List α} (hlength : l.length ≠ 0) :
    l.length * (l.map fun p =>
        (f p - (l.map f).sum / l.length) * (g p - (l.map g).sum / l.length)).sum
      = overPairs (fun p q => (f q - f p) * (g q - g p)) l := by
  have hne : (l.length : ℚ) ≠ 0 := Nat.cast_ne_zero.2 hlength
  rw [sum_distances, overPairs_distances]
  field_simp
  ring

end Pairs

namespace History

/-! ## Slopes -/

/-- Two sums are taken in one pass. -/
theorem foldl_sums {α : Type} (f g : α → ℚ) (l : List α) (a b : ℚ) :
    l.foldl (fun (sums : ℚ × ℚ) p => (sums.1 + f p, sums.2 + g p)) (a, b)
      = (a + (l.map f).sum, b + (l.map g).sum) := by
  induction l generalizing a b with
  | nil => simp
  | cons p rest ih =>
    rw [List.foldl_cons, ih, List.map_cons, List.map_cons, List.sum_cons, List.sum_cons,
      add_assoc, add_assoc]

/-- What a pair of points rises, times the time between them. -/
def rise (p q : ℚ × ℚ) : ℚ :=
  (q.1 - p.1) * (q.2 - p.2)

/-- The square of the time between two points. -/
def weight (p q : ℚ × ℚ) : ℚ :=
  (q.1 - p.1) * (q.1 - p.1)

/-- A quotient by zero is zero in any case. -/
theorem guarded_div (a b : ℚ) : (if b == 0 then 0 else a / b) = a / b := by
  split
  · next hzero => rw [beq_iff_eq.1 hzero, div_zero]
  · rfl

/-- The slope of points is the mean of the slopes of their pairs, each with its weight. -/
theorem slope_eq_overPairs {points : List (ℚ × ℚ)} (hlength : 2 ≤ points.length) :
    slope points points.length = overPairs rise points / overPairs weight points := by
  have hne : points.length ≠ 0 := by omega
  have hcast : (points.length : ℚ) ≠ 0 := Nat.cast_ne_zero.2 hne
  have hzero : (0.0 : ℚ) = 0 := by norm_num
  have hrise : _ = overPairs rise points := length_mul_sum_distances Prod.fst Prod.snd hne
  have hweight : _ = overPairs weight points := length_mul_sum_distances Prod.fst Prod.fst hne
  rw [← hrise, ← hweight, mul_div_mul_left _ _ hcast]
  have hcount : (Scalar.ofNat points.length : ℚ) = points.length := rfl
  unfold slope
  simp only [Scalar.sum_eq, hcount]
  rw [foldl_sums, hzero, zero_add, zero_add]
  exact guarded_div _ _

/-! ## Samples at equal distances -/

variable {samples : List ℚ} {hours : ℚ}

theorem length_points (samples : List ℚ) (hours : ℚ) :
    (points samples samples.length hours).length = samples.length := by
  rw [points, List.length_mapIdx, List.take_length]

/-- What holds for the times and values of every two samples holds for their points. -/
theorem pairwise_points {R : ℚ × ℚ → ℚ × ℚ → Prop}
    (h : ∀ (i j : Nat) (hi : i < samples.length) (hj : j < samples.length), i < j →
      R (-(i : ℚ) * hours, samples[i]) (-(j : ℚ) * hours, samples[j])) :
    (points samples samples.length hours).Pairwise R := by
  rw [List.pairwise_iff_getElem]
  intro i j hi hj hij
  rw [length_points] at hi hj
  simp only [points, List.getElem_mapIdx, List.getElem_take]
  exact h i j hi hj hij

/-- A function of the samples alone goes through the points. -/
theorem points_map (f : ℚ → ℚ) (samples : List ℚ) (hours : ℚ) :
    points (samples.map f) samples.length hours
      = (points samples samples.length hours).map fun p => (p.1, f p.2) := by
  refine List.ext_getElem (by simp [points]) fun i hi hi' => ?_
  simp only [points, List.getElem_mapIdx, List.getElem_map, List.getElem_take]

/-- A sample that stands later is older. -/
theorem time_lt (hhours : 0 < hours) {i j : Nat} (hij : i < j) :
    -(j : ℚ) * hours < -(i : ℚ) * hours := by
  have hcast : (i : ℚ) < j := Nat.cast_lt.2 hij
  exact mul_lt_mul_of_pos_right (neg_lt_neg hcast) hhours

theorem overPairs_weight_pos (hhours : 0 < hours) (hlength : 2 ≤ samples.length) :
    0 < overPairs weight (points samples samples.length hours) := by
  refine overPairs_pos (pairwise_points fun i j _ _ hij => ?_) (by rwa [length_points])
  have hback := sub_neg.2 (time_lt hhours hij)
  exact mul_pos_of_neg_of_neg hback hback

/-- The slope of all samples at equal distances. -/
theorem slope_points_eq (hlength : 2 ≤ samples.length) (hours : ℚ) :
    slope (points samples samples.length hours) samples.length
      = overPairs rise (points samples samples.length hours)
        / overPairs weight (points samples samples.length hours) := by
  have hpoints : 2 ≤ (points samples samples.length hours).length := by rwa [length_points]
  have hslope := slope_eq_overPairs hpoints
  rwa [length_points] at hslope

/-- Samples that rise in time have a positive slope; the newest stands first. -/
theorem slope_points_pos (hhours : 0 < hours) (hlength : 2 ≤ samples.length)
    (hrising : samples.Pairwise fun newer older => older < newer) :
    0 < slope (points samples samples.length hours) samples.length := by
  rw [slope_points_eq hlength]
  refine div_pos (overPairs_pos (pairwise_points fun i j hi hj hij => ?_)
    (by rwa [length_points])) (overPairs_weight_pos hhours hlength)
  have hless := List.pairwise_iff_getElem.1 hrising i j hi hj hij
  exact mul_pos_of_neg_of_neg (sub_neg.2 (time_lt hhours hij)) (sub_neg.2 hless)

/-- Only differences of samples count, and a factor of all samples is a factor of their slope. -/
theorem slope_points_affine (hlength : 2 ≤ samples.length) (a b hours : ℚ) :
    slope (points (samples.map fun y => a * y + b) samples.length hours) samples.length
      = a * slope (points samples samples.length hours) samples.length := by
  have hrise : (fun p q : ℚ × ℚ => rise (p.1, a * p.2 + b) (q.1, a * q.2 + b))
      = fun p q => a * rise p q := by
    funext p q
    simp only [rise]
    ring
  have hweight : (fun p q : ℚ × ℚ => weight (p.1, a * p.2 + b) (q.1, a * q.2 + b)) = weight := rfl
  have hsame : 2 ≤ (samples.map fun y => a * y + b).length := by rwa [List.length_map]
  have hmapped := slope_points_eq hsame hours
  rw [List.length_map, points_map, overPairs_map, overPairs_map, hrise, hweight,
    overPairs_mul_left, mul_div_assoc, ← slope_points_eq hlength] at hmapped
  rw [points_map, hmapped]

/-- Samples on a line have the slope of the line. -/
theorem slope_points_line (hhours : 0 < hours) (hlength : 2 ≤ samples.length) {a b : ℚ}
    (hline : ∀ (i : Nat) (hi : i < samples.length), samples[i] = a * (-(i : ℚ) * hours) + b) :
    slope (points samples samples.length hours) samples.length = a := by
  have hrise : (points samples samples.length hours).Pairwise
      fun p q => rise p q = a * weight p q := by
    refine pairwise_points fun i j hi hj _ => ?_
    simp only [rise, weight, hline i hi, hline j hj]
    ring
  rw [slope_points_eq hlength, overPairs_congr hrise, overPairs_mul_left,
    mul_div_cancel_right₀ _ (overPairs_weight_pos hhours hlength).ne']

/-! ## Directions -/

/-- The history of a function of the samples. -/
def map {α β : Type} (f : α → β) (h : History α) : History β :=
  ⟨h.capacity, h.samples.map f⟩

/-- The samples of a window in the order of time, the oldest first. -/
def inTime {α : Type} (h : History α) (k : Nat) : List α :=
  (h.samples.take k).reverse

/-- Over at least two samples the direction is the slope of all their points. -/
theorem direction?_eq_slope {h : History ℚ} {k : Nat} (hlength : 2 ≤ (h.samples.take k).length)
    (hours : ℚ) :
    h.direction? k hours
      = some (slope (points (h.samples.take k) (h.samples.take k).length hours)
          (h.samples.take k).length) := by
  have hne : h.samples.take k ≠ [] := by
    intro hnil
    simp [hnil] at hlength
  rw [direction?_eq, window?_eq_some_iff.2 ⟨rfl, hne⟩, Option.map_some, if_neg (by omega)]

theorem direction?_map {h : History ℚ} {k : Nat} (hlength : 2 ≤ (h.samples.take k).length)
    (f : ℚ → ℚ) (hours : ℚ) :
    (h.map f).direction? k hours
      = some (slope (points ((h.samples.take k).map f) (h.samples.take k).length hours)
          (h.samples.take k).length) := by
  have htake : (h.map f).samples.take k = (h.samples.take k).map f := List.map_take.symm
  rw [direction?_eq_slope (by rwa [htake, List.length_map]), htake, List.length_map]

/-- The direction of a trend goes with its samples.  In exact arithmetic, over a window of at least
    two samples that are any time apart, the direction is positive if the samples rise in time,
    negative if they fall and zero if they are all equal; if they lie on a line it is what the line
    rises in an hour.  A constant that is added to every sample leaves the direction as it is, and a
    factor of every sample is a factor of the direction. -/
theorem direction_follows_samples (h : History ℚ) {k : Nat} {hours : ℚ} (hk : 2 ≤ k)
    (hsize : 2 ≤ h.size) (hhours : 0 < hours) :
    ∃ d, h.direction? k hours = some d
      ∧ ((h.inTime k).Pairwise (· < ·) → 0 < d)
      ∧ ((h.inTime k).Pairwise (· > ·) → d < 0)
      ∧ ((∀ x ∈ h.inTime k, ∀ y ∈ h.inTime k, x = y) → d = 0)
      ∧ (∀ a b : ℚ, (∀ (i : Nat) (x : ℚ), (h.samples.take k)[i]? = some x →
          x = a * (-(i : ℚ) * hours) + b) → d = a)
      ∧ (∀ c : ℚ, (h.map (· + c)).direction? k hours = some d)
      ∧ ∀ c : ℚ, (h.map (c * ·)).direction? k hours = some (c * d) := by
  have hlength : 2 ≤ (h.samples.take k).length := by
    rw [List.length_take]
    exact le_min hk hsize
  refine ⟨_, direction?_eq_slope hlength hours, fun hrising => ?_, fun hfalling => ?_,
    fun hequal => ?_, fun a b hline => ?_, fun c => ?_, fun c => ?_⟩
  · exact slope_points_pos hhours hlength (List.pairwise_reverse.1 hrising)
  · -- what falls is the negative of what rises
    have hrising : ((h.samples.take k).map fun y => -1 * y + 0).Pairwise
        fun newer older => older < newer := by
      refine List.pairwise_map.2 ((List.pairwise_reverse.1 hfalling).imp fun hless => ?_)
      linarith
    have hpos := slope_points_pos hhours (by rwa [List.length_map]) hrising
    rw [List.length_map, slope_points_affine hlength] at hpos
    linarith
  · -- equal samples lie on a flat line
    have hhead : (h.samples.take k)[0] ∈ h.inTime k :=
      List.mem_reverse.2 (List.getElem_mem (by omega))
    refine slope_points_line (b := (h.samples.take k)[0]) hhours hlength fun i hi => ?_
    rw [zero_mul, zero_add]
    exact hequal _ (List.mem_reverse.2 (List.getElem_mem hi)) _ hhead
  · exact slope_points_line hhours hlength fun i hi => hline i _ (List.getElem?_eq_getElem hi)
  · have hslope := slope_points_affine hlength 1 c hours
    simp only [one_mul] at hslope
    rw [direction?_map hlength, hslope]
  · have hslope := slope_points_affine hlength c 0 hours
    simp only [add_zero] at hslope
    rw [direction?_map hlength, hslope]

/-- Half an hour apart: the newest three of four samples on a line, then shifted and turned around;
    samples that rise ever faster, that fall, and that stay. -/
theorem direction_follows_samples_halfHours :
    (⟨4, [3, 2, 1, 9]⟩ : History ℚ).direction? 3 (1 / 2) = some 2
      ∧ (map (· + 7) (⟨4, [3, 2, 1, 9]⟩ : History ℚ)).direction? 3 (1 / 2) = some 2
      ∧ (map (-3 * ·) (⟨4, [3, 2, 1, 9]⟩ : History ℚ)).direction? 3 (1 / 2) = some (-3 * 2)
      ∧ (∃ d, (⟨4, [9, 3, 1]⟩ : History ℚ).direction? 8 (1 / 2) = some d ∧ 0 < d)
      ∧ (∃ d, (⟨4, [1, 3, 9]⟩ : History ℚ).direction? 8 (1 / 2) = some d ∧ d < 0)
      ∧ (⟨4, [5, 5]⟩ : History ℚ).direction? 8 (1 / 2) = some 0 := by
  have hhalf : (0 : ℚ) < 1 / 2 := by norm_num
  obtain ⟨d, hd, -, -, -, hline, hadd, hmul⟩ := direction_follows_samples
    (⟨4, [3, 2, 1, 9]⟩ : History ℚ) (k := 3) (by decide) (by decide) hhalf
  have htwo : d = 2 := by
    refine hline 2 3 fun i x hx => ?_
    rcases i with _ | _ | _ | i <;> cases hx <;> norm_num
  obtain ⟨r, hr, hrising, -⟩ := direction_follows_samples
    (⟨4, [9, 3, 1]⟩ : History ℚ) (k := 8) (by decide) (by decide) hhalf
  obtain ⟨f, hf, -, hfalling, -⟩ := direction_follows_samples
    (⟨4, [1, 3, 9]⟩ : History ℚ) (k := 8) (by decide) (by decide) hhalf
  obtain ⟨e, he, -, -, hequal, -⟩ := direction_follows_samples
    (⟨4, [5, 5]⟩ : History ℚ) (k := 8) (by decide) (by decide) hhalf
  have hflat : e = 0 := hequal (by simp [inTime])
  subst htwo hflat
  exact ⟨hd, hadd 7, hmul (-3), ⟨r, hr, hrising (by norm_num [inTime])⟩,
    ⟨f, hf, hfalling (by norm_num [inTime])⟩, he⟩

end History

end Erl
