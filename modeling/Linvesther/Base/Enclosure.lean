import Mathlib

/-! Real numbers between integers, and roundings that keep them there: quotients and square roots
rounded down and up, and Newton's method for the square root of an integer. -/

namespace Enclosure

section Segments

variable {lo hi a b k x : ℝ}

/-- A bound of a linear map at both ends is one in between. -/
theorem le_mul_of_ends (ha : lo ≤ a * k) (hb : lo ≤ b * k) (hax : a ≤ x) (hxb : x ≤ b) : lo ≤ x * k := by
  rcases le_total 0 k with hk | hk
  · exact ha.trans (mul_le_mul_of_nonneg_right hax hk)
  · exact hb.trans (mul_le_mul_of_nonpos_right hxb hk)

theorem mul_le_of_ends (ha : a * k ≤ hi) (hb : b * k ≤ hi) (hax : a ≤ x) (hxb : x ≤ b) : x * k ≤ hi := by
  rcases le_total 0 k with hk | hk
  · exact (mul_le_mul_of_nonneg_right hxb hk).trans hb
  · exact (mul_le_mul_of_nonpos_right hax hk).trans ha

/-- A factor on one side of zero. -/
theorem inv_between {n s t y : ℝ} (hs : 0 < n * s) (ht : 0 < n * t) (hsy : s ≤ y) (hyt : y ≤ t) :
    0 < n * y ∧ t⁻¹ ≤ y⁻¹ ∧ y⁻¹ ≤ s⁻¹ := by
  rcases pos_and_pos_or_neg_and_neg_of_mul_pos hs with ⟨hn, hs⟩ | ⟨hn, hs⟩
  · have hy := hs.trans_le hsy
    exact ⟨mul_pos hn hy, inv_anti₀ hy hyt, inv_anti₀ hs hsy⟩
  · have ht := neg_of_mul_pos_right ht hn.le
    have hy := hyt.trans_lt ht
    exact ⟨mul_pos_of_neg_of_neg hn hy, (inv_le_inv_of_neg ht hy).2 hyt, (inv_le_inv_of_neg hy hs).2 hsy⟩

end Segments

section Quotients

/-- A quotient rounded up. -/
def ceilDiv (a b : ℤ) : ℤ := if a % b ≠ 0 then a / b + 1 else a / b

theorem floor_le {a b : ℤ} (hb : 0 < b) : ((a / b : ℤ) : ℝ) ≤ a / b := by
  rw [le_div_iff₀ (by exact_mod_cast hb)]
  exact_mod_cast Int.ediv_mul_le a hb.ne'

theorem le_ceilDiv_mul {a b : ℤ} (hb : 0 < b) : a ≤ ceilDiv a b * b := by
  have hsplit := Int.emod_add_mul_ediv a b
  have hlt := Int.emod_lt_of_pos a hb
  unfold ceilDiv
  split_ifs with h
  · linarith
  · push Not at h
    linarith

theorem le_ceil {a b : ℤ} (hb : 0 < b) : (a : ℝ) / b ≤ ceilDiv a b := by
  rw [div_le_iff₀ (by exact_mod_cast hb)]
  exact_mod_cast le_ceilDiv_mul hb

theorem ediv_le_ceilDiv (a b : ℤ) : a / b ≤ ceilDiv a b := by
  unfold ceilDiv
  split_ifs <;> omega

theorem ceilDiv_nonneg {a b : ℤ} (ha : 0 ≤ a) (hb : 0 < b) : 0 ≤ ceilDiv a b :=
  (Int.ediv_nonneg ha hb.le).trans (ediv_le_ceilDiv a b)

theorem ceilDiv_nonpos {a b : ℤ} (ha : a ≤ 0) (hb : 0 < b) : ceilDiv a b ≤ 0 := by
  have hsplit := Int.emod_add_mul_ediv a b
  have hnonneg := Int.emod_nonneg a hb.ne'
  unfold ceilDiv
  split_ifs with h
  · by_contra hcon
    have hzero : 0 ≤ a / b := by omega
    have : 0 ≤ b * (a / b) := mul_nonneg hb.le hzero
    omega
  · by_contra hcon
    have hone : 1 ≤ a / b := by omega
    have : b * 1 ≤ b * (a / b) := mul_le_mul_of_nonneg_left hone hb.le
    omega

theorem two_mul_ceilDiv_le {a b : ℤ} (ha : 0 ≤ a) (hb : 2 ≤ b) : 2 * ceilDiv a b ≤ a + 2 := by
  have hnonneg := Int.ediv_nonneg ha (by omega : 0 ≤ b)
  have hmul := Int.ediv_mul_le a (by omega : b ≠ 0)
  have hhalf := mul_le_mul_of_nonneg_left hb hnonneg
  unfold ceilDiv
  split_ifs <;> linarith

theorem ceilDiv_le {a b : ℤ} (ha : 0 ≤ a) (hb : 0 < b) : ceilDiv a b ≤ a := by
  by_cases hone : b = 1
  · simp [ceilDiv, hone]
  · have htwo := two_mul_ceilDiv_le ha (by omega : 2 ≤ b)
    by_cases hsmall : a ≤ 1
    · unfold ceilDiv
      split_ifs with h
      · have hdiv : a / b = 0 := Int.ediv_eq_zero_of_lt ha (by omega)
        have hane : a ≠ 0 := fun hzero => h (by rw [hzero, Int.zero_emod])
        omega
      · exact Int.ediv_le_self b ha
    · omega

end Quotients

section Roots

/-- The square root of `n`, rounded down. -/
structure IsRoot (n r : ℤ) : Prop where
  nonneg : 0 ≤ r
  sq_le : r * r ≤ n
  lt_succ_sq : n < (r + 1) * (r + 1)

theorem IsRoot.le_sqrt {n r : ℤ} (h : IsRoot n r) : (r : ℝ) ≤ √n := by
  apply Real.le_sqrt_of_sq_le
  rw [pow_two]
  exact_mod_cast h.sq_le

/-- The root rounded up, as long as it is not exact. -/
theorem IsRoot.sqrt_le {n r : ℤ} (h : IsRoot n r) :
    √n ≤ ((if r * r < n then r + 1 else r : ℤ) : ℝ) := by
  have hr : (0 : ℝ) ≤ r := by exact_mod_cast h.nonneg
  apply Real.sqrt_le_iff.2
  split_ifs with hlt
  · refine ⟨by push_cast; linarith, ?_⟩
    rw [pow_two]
    exact_mod_cast h.lt_succ_sq.le
  · refine ⟨hr, ?_⟩
    rw [pow_two]
    exact_mod_cast not_lt.1 hlt

/-- One step of Newton's method, from above. -/
theorem lt_newton_succ_sq {n x : ℤ} (hn : 0 ≤ n) (hx : 0 < x) :
    n < ((x + n / x) / 2 + 1) * ((x + n / x) / 2 + 1) := by
  have hlt : n < x * (n / x + 1) := by
    have hsplit := Int.emod_add_mul_ediv n x
    have := Int.emod_lt_of_pos n hx
    linarith
  have hhalf : x + n / x + 1 ≤ 2 * ((x + n / x) / 2 + 1) := by omega
  have hpos : 0 ≤ x + n / x + 1 := by linarith [Int.ediv_nonneg hn hx.le]
  have hsq := mul_self_le_mul_self hpos hhalf
  have hmean := sq_nonneg (x - (n / x + 1))
  linarith

/-- Where the step no longer goes down, the root is reached. -/
theorem newton_sq_le {n x : ℤ} (hx : 0 < x) (h : x ≤ (x + n / x) / 2) : x * x ≤ n := by
  have hle : x ≤ n / x := by omega
  calc x * x ≤ x * (n / x) := by exact Int.mul_le_mul_of_nonneg_left hle hx.le
    _ ≤ n := Int.mul_ediv_self_le hx.ne'

/-- The guesses from `n` downward and their quotients are never far apart. -/
theorem add_ediv_le {n x : ℤ} (hx : 0 < x) (hxn : x ≤ n) : x + n / x ≤ n + 1 := by
  have hquotient : 1 ≤ n / x := (Int.le_ediv_iff_mul_le hx).2 (by linarith)
  have hmul := Int.mul_ediv_self_le (x := n) hx.ne'
  have hdist := mul_nonneg (sub_nonneg.2 (show 1 ≤ x from hx)) (sub_nonneg.2 hquotient)
  linarith

end Roots

end Enclosure
