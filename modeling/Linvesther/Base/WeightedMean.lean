import Mathlib

/-! The mean of values that count in proportion to their weights. -/

namespace WeightedMean

section Mean

variable {K : Type} [Field K]

/-- Of pairs of a weight and a value. -/
def total (l : List (K × K)) : K := (l.map Prod.fst).sum

def weighted (l : List (K × K)) : K := (l.map fun p => p.1 * p.2).sum

def mean (l : List (K × K)) : K := weighted l / total l

variable {l l' : List (K × K)}

@[simp]
theorem total_cons (p : K × K) (l : List (K × K)) : total (p :: l) = p.1 + total l := rfl

@[simp]
theorem weighted_cons (p : K × K) (l : List (K × K)) : weighted (p :: l) = p.1 * p.2 + weighted l := rfl

theorem total_append (l l' : List (K × K)) : total (l ++ l') = total l + total l' := by
  unfold total
  rw [List.map_append, List.sum_append]

theorem weighted_append (l l' : List (K × K)) : weighted (l ++ l') = weighted l + weighted l' := by
  unfold weighted
  rw [List.map_append, List.sum_append]

theorem total_perm (h : l.Perm l') : total l = total l' := (h.map _).sum_eq

theorem weighted_perm (h : l.Perm l') : weighted l = weighted l' := (h.map _).sum_eq

/-- One and the mean of what the values are above one. -/
theorem one_add_gain (h : total l ≠ 0) :
    1 + (l.map fun p => p.1 * (p.2 - 1)).sum / total l = mean l := by
  have hgain : (l.map fun p => p.1 * (p.2 - 1)).sum = weighted l - total l := by
    clear h
    induction l with
    | nil => simp [weighted, total]
    | cons p l ih =>
      rw [List.map_cons, List.sum_cons, ih, weighted_cons, total_cons]
      ring
  rw [hgain, mean, sub_div, div_self h, add_sub_cancel]

theorem mean_singleton {w : K} (hw : w ≠ 0) (v : K) : mean [(w, v)] = v := by
  simp [mean, weighted, total, hw]

variable [LinearOrder K]

/-- The pairs that count. -/
def counting (l : List (K × K)) : List (K × K) := l.filter fun p => 0 < p.1

theorem sum_counting (hl : ∀ p ∈ l, 0 ≤ p.1) (f : K → K) :
    ((counting l).map fun p => p.1 * f p.2).sum = (l.map fun p => p.1 * f p.2).sum := by
  unfold counting
  induction l with
  | nil => rfl
  | cons p l ih =>
    obtain ⟨hp, hl⟩ := List.forall_mem_cons.1 hl
    rw [List.filter_cons, List.map_cons, List.sum_cons, ← ih hl]
    split_ifs with hpos
    · rw [List.map_cons, List.sum_cons]
    · have hzero : p.1 = 0 := le_antisymm (not_lt.1 fun h => hpos (decide_eq_true h)) hp
      rw [hzero, zero_mul, zero_add]

theorem counting_ne_nil (hl : ∀ p ∈ l, 0 ≤ p.1) (htotal : 0 < total l) : counting l ≠ [] := by
  intro hnil
  have hsum := sum_counting hl fun _ => 1
  simp only [hnil, mul_one, List.map_nil, List.sum_nil] at hsum
  exact htotal.ne hsum

/-- Over the pairs that count, the values and the mean have one weighted sum. -/
theorem sum_counting_mean (hl : ∀ p ∈ l, 0 ≤ p.1) (htotal : 0 < total l) :
    ((counting l).map fun p => p.1 * p.2).sum = ((counting l).map fun p => p.1 * mean l).sum := by
  rw [sum_counting hl fun v => v, sum_counting hl fun _ => mean l, List.sum_map_mul_right]
  change weighted l = total l * mean l
  rw [mean, mul_div_cancel₀ _ htotal.ne']

variable [IsStrictOrderedRing K]

/-- Some value that counts is at most the mean. -/
theorem exists_le_mean (hl : ∀ p ∈ l, 0 ≤ p.1) (htotal : 0 < total l) : ∃ p ∈ l, 0 < p.1 ∧ p.2 ≤ mean l := by
  obtain ⟨p, hp, hle⟩ := List.exists_le_of_sum_le (counting_ne_nil hl htotal) _ _ (sum_counting_mean hl htotal).le
  obtain ⟨hmem, hpos⟩ := List.mem_filter.1 hp
  rw [decide_eq_true_eq] at hpos
  exact ⟨p, hmem, hpos, le_of_mul_le_mul_left hle hpos⟩

/-- Some value that counts is at least the mean. -/
theorem exists_ge_mean (hl : ∀ p ∈ l, 0 ≤ p.1) (htotal : 0 < total l) : ∃ p ∈ l, 0 < p.1 ∧ mean l ≤ p.2 := by
  obtain ⟨p, hp, hle⟩ := List.exists_le_of_sum_le (counting_ne_nil hl htotal) _ _ (sum_counting_mean hl htotal).ge
  obtain ⟨hmem, hpos⟩ := List.mem_filter.1 hp
  rw [decide_eq_true_eq] at hpos
  exact ⟨p, hmem, hpos, le_of_mul_le_mul_left hle hpos⟩

theorem total_pos (hl : ∀ p ∈ l, 0 ≤ p.1) {p : K × K} (hp : p ∈ l) (hpos : 0 < p.1) : 0 < total l := by
  have hle := List.single_le_sum (fun x hx => ?_) p.1 (List.mem_map_of_mem (f := Prod.fst) hp)
  · exact hpos.trans_le hle
  · obtain ⟨q, hq, rfl⟩ := List.mem_map.1 hx
    exact hl q hq

end Mean

end WeightedMean
