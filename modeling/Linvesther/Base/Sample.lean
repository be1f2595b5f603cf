import Mathlib

/-! Statistics of a sample of real numbers: mean, sample standard deviation and downside deviation,
and how they follow a change of scale or origin. -/

namespace Sample

/-- The arithmetic mean. -/
noncomputable def mean (xs : List ℝ) : ℝ := xs.sum / xs.length

/-- The standard deviation, with one degree of freedom less than there are values. -/
noncomputable def stdev (xs : List ℝ) : ℝ :=
  √((xs.map fun x => (x - mean xs) ^ 2).sum / (xs.length - 1))

/-- The root mean square of the values below 0. -/
noncomputable def downsideDev (xs : List ℝ) : ℝ :=
  √((xs.map fun x => (min 0 x) ^ 2).sum / xs.length)

section Scale

theorem sum_map_sq_mul (c : ℝ) (f : ℝ → ℝ) (xs : List ℝ) :
    (xs.map fun x => (c * f x) ^ 2).sum = c ^ 2 * (xs.map fun x => f x ^ 2).sum := by
  simp only [mul_pow, List.sum_map_mul_left]

theorem mean_mul (c : ℝ) (xs : List ℝ) : mean (xs.map (c * ·)) = c * mean xs := by
  unfold mean
  rw [List.sum_map_mul_left, List.map_id', List.length_map, mul_div_assoc]

theorem stdev_mul {c : ℝ} (hc : 0 ≤ c) (xs : List ℝ) : stdev (xs.map (c * ·)) = c * stdev xs := by
  have hdeviation : ∀ x, c * x - mean (xs.map (c * ·)) = c * (x - mean xs) := by
    intro x
    rw [mean_mul, mul_sub]
  unfold stdev
  simp only [List.map_map, Function.comp_def, hdeviation, List.length_map]
  rw [sum_map_sq_mul, mul_div_assoc, Real.sqrt_mul (sq_nonneg c), Real.sqrt_sq hc]

theorem downsideDev_mul {c : ℝ} (hc : 0 ≤ c) (xs : List ℝ) :
    downsideDev (xs.map (c * ·)) = c * downsideDev xs := by
  have hmin : ∀ x, min 0 (c * x) = c * min 0 x := by
    intro x
    rw [mul_min_of_nonneg _ _ hc, mul_zero]
  unfold downsideDev
  simp only [List.map_map, Function.comp_def, hmin, List.length_map]
  rw [sum_map_sq_mul, mul_div_assoc, Real.sqrt_mul (sq_nonneg c), Real.sqrt_sq hc]

/-- The standard deviation from the sum alone, without a quotient before the last one. -/
theorem stdev_eq {xs : List ℝ} (h : xs ≠ []) :
    stdev xs = √((xs.map fun x => (xs.length * x - xs.sum) ^ 2).sum /
      (xs.length * xs.length * (xs.length - 1))) := by
  have hn : (xs.length : ℝ) ≠ 0 := by exact_mod_cast (List.length_pos_iff.2 h).ne'
  have hterm : ∀ x, xs.length * x - xs.sum = xs.length * (x - mean xs) := by
    intro x
    unfold mean
    field_simp
  simp only [hterm]
  rw [sum_map_sq_mul, ← pow_two, mul_div_mul_left _ _ (pow_ne_zero 2 hn)]
  rfl

end Scale

section Sign

theorem mean_pos {xs : List ℝ} (hne : xs ≠ []) (h : ∀ x ∈ xs, 0 < x) : 0 < mean xs := by
  have hn : (0 : ℝ) < xs.length := by exact_mod_cast List.length_pos_iff.2 hne
  exact div_pos (List.sum_pos xs h hne) hn

theorem mean_neg {xs : List ℝ} (hne : xs ≠ []) (h : ∀ x ∈ xs, x < 0) : mean xs < 0 := by
  have hpos : 0 < mean (xs.map (-1 * ·)) := by
    apply mean_pos
    · simpa using hne
    · intro y hy
      obtain ⟨x, hx, rfl⟩ := List.mem_map.1 hy
      linarith [h x hx]
  rw [mean_mul] at hpos
  linarith

end Sign

end Sample
