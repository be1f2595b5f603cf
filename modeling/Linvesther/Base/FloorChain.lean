import Mathlib

/-! An index at a fixed scale, multiplied along a series by the ratio of each value to the one before. The
ratio and the product are both rounded down. -/

namespace FloorChain

section Step

/-- `index` times `cur / prev`. -/
def step (scale index prev cur : ℤ) : ℤ := index * (cur * scale / prev) / scale

variable {scale index prev cur : ℤ}

theorem ediv_le (a : ℤ) {b : ℤ} (hb : 0 < b) : ((a / b : ℤ) : ℚ) ≤ a / b := by
  rw [le_div_iff₀ (by exact_mod_cast hb)]
  exact_mod_cast Int.ediv_mul_le a hb.ne'

theorem lt_ediv_add_one (a : ℤ) {b : ℤ} (hb : 0 < b) : (a / b : ℚ) < ((a / b : ℤ) : ℚ) + 1 := by
  rw [div_lt_iff₀ (by exact_mod_cast hb)]
  exact_mod_cast Int.lt_ediv_add_one_mul_self a hb

theorem step_nonneg (hscale : 0 < scale) (hindex : 0 ≤ index) (hprev : 0 < prev) (hcur : 0 < cur) :
    0 ≤ step scale index prev cur :=
  Int.ediv_nonneg (mul_nonneg hindex (Int.ediv_nonneg (mul_nonneg hcur.le hscale.le) hprev.le)) hscale.le

/-- The product before it is divided by the scale again. -/
theorem product_le (hindex : 0 ≤ index) (hprev : 0 < prev) :
    ((index * (cur * scale / prev) : ℤ) : ℚ) ≤ scale * (index * (cur / prev)) := by
  have hratio := ediv_le (cur * scale) hprev
  calc ((index * (cur * scale / prev) : ℤ) : ℚ) = index * ((cur * scale / prev : ℤ) : ℚ) := Int.cast_mul _ _
    _ ≤ index * (((cur * scale : ℤ) : ℚ) / prev) := by gcongr
    _ = scale * (index * (cur / prev)) := by
        push_cast
        ring

theorem step_le (hscale : 0 < scale) (hindex : 0 ≤ index) (hprev : 0 < prev) :
    (step scale index prev cur : ℚ) ≤ index * (cur / prev) := by
  have hscale' : (0 : ℚ) < scale := by exact_mod_cast hscale
  calc (step scale index prev cur : ℚ) ≤ ((index * (cur * scale / prev) : ℤ) : ℚ) / scale := ediv_le _ hscale
    _ ≤ scale * (index * (cur / prev)) / scale := by
        gcongr
        exact product_le hindex hprev
    _ = index * (cur / prev) := mul_div_cancel_left₀ _ hscale'.ne'

/-- Rounding the ratio costs at most a unit of it for every unit of the index, rounding the product at most one. -/
theorem lt_step_add (hscale : 0 < scale) (hindex : 0 ≤ index) (hprev : 0 < prev) :
    index * (cur / prev : ℚ) ≤ step scale index prev cur + index / scale + 1 := by
  have hscale' : (0 : ℚ) < scale := by exact_mod_cast hscale
  have hratio : (cur * scale / prev : ℚ) ≤ ((cur * scale / prev : ℤ) : ℚ) + 1 := by
    have := (lt_ediv_add_one (cur * scale) hprev).le
    push_cast at this
    exact this
  have hproduct : (index * ((cur * scale / prev : ℤ) : ℚ)) / scale ≤ step scale index prev cur + 1 := by
    have := (lt_ediv_add_one (index * (cur * scale / prev)) hscale).le
    push_cast at this
    exact this
  calc index * (cur / prev : ℚ) = index * (cur * scale / prev) / scale := by
        field_simp
    _ ≤ index * (((cur * scale / prev : ℤ) : ℚ) + 1) / scale := by gcongr
    _ = (index * ((cur * scale / prev : ℤ) : ℚ)) / scale + index / scale := by ring
    _ ≤ step scale index prev cur + index / scale + 1 := by linarith

end Step

section Chain

def chain (scale index : ℤ) : List ℤ → ℤ
  | prev :: cur :: rest => chain scale (step scale index prev cur) (cur :: rest)
  | _ => index

/-- What rounding can cost along the series, of each unit that it ends with. -/
def loss (first : ℤ) : List ℤ → ℚ
  | prev :: cur :: rest => (prev / first + 1) / cur + loss first (cur :: rest)
  | _ => 0

theorem loss_eq_sum (first : ℤ) (l : List ℤ) :
    loss first l = ((l.zip l.tail).map fun w => ((w.1 : ℚ) / first + 1) / w.2).sum := by
  induction l with
  | nil => rfl
  | cons prev rest ih =>
    cases rest with
    | nil => rfl
    | cons cur rest =>
      rw [loss, ih]
      simp only [List.tail_cons, List.zip_cons_cons, List.map_cons, List.sum_cons]

variable {scale first prev index : ℤ}

/-- The index stays below the growth since the first value, and falls short of it by what is lost along the
way. The shortfall so far is carried on in proportion to the value. -/
theorem chain_bounds (hscale : 0 < scale) (hfirst : 0 < first) {rest : List ℤ} (hpos : ∀ v ∈ prev :: rest, 0 < v)
    (hindex : 0 ≤ index) (hle : (index : ℚ) ≤ scale * (prev / first)) :
    (chain scale index (prev :: rest) : ℚ) ≤ scale * ((prev :: rest).getLast (by simp) / first) ∧
      scale * ((prev :: rest).getLast (by simp) / first : ℚ) - chain scale index (prev :: rest) ≤
        (prev :: rest).getLast (by simp) *
          ((scale * (prev / first) - index) / prev + loss first (prev :: rest)) := by
  induction rest generalizing prev index with
  | nil =>
    have hprev : (prev : ℚ) ≠ 0 := by exact_mod_cast (hpos prev List.mem_cons_self).ne'
    refine ⟨hle, le_of_eq ?_⟩
    simp only [chain, loss, List.getLast_singleton, add_zero]
    field_simp
  | cons cur rest ih =>
    have hprev := hpos prev List.mem_cons_self
    have hcur := hpos cur (List.mem_cons_of_mem _ List.mem_cons_self)
    have hprev' : (0 : ℚ) < prev := by exact_mod_cast hprev
    have hcur' : (0 : ℚ) < cur := by exact_mod_cast hcur
    have hfirst' : (0 : ℚ) < first := by exact_mod_cast hfirst
    have hscale' : (0 : ℚ) < scale := by exact_mod_cast hscale
    have hstep : (step scale index prev cur : ℚ) ≤ index * (cur / prev) := step_le hscale hindex hprev
    have hnext : (step scale index prev cur : ℚ) ≤ scale * (cur / first) := by
      calc (step scale index prev cur : ℚ) ≤ index * (cur / prev) := hstep
        _ ≤ scale * (prev / first) * (cur / prev) := by gcongr
        _ = scale * (cur / first) := by field_simp
    obtain ⟨hupper, hlower⟩ := ih (fun v hv => hpos v (List.mem_cons_of_mem _ hv))
      (step_nonneg hscale hindex hprev hcur) hnext
    rw [List.getLast_cons (by simp)]
    refine ⟨hupper, hlower.trans ?_⟩
    have hlast : (0 : ℚ) ≤ (cur :: rest).getLast (by simp) := by
      exact_mod_cast (hpos _ (List.mem_cons_of_mem _ (List.getLast_mem _))).le
    refine mul_le_mul_of_nonneg_left ?_ hlast
    have hcost : index * (cur / prev : ℚ) ≤ step scale index prev cur + index / scale + 1 :=
      lt_step_add hscale hindex hprev
    have hshare : (index : ℚ) / scale ≤ prev / first := by
      rw [div_le_iff₀ hscale']
      linarith
    have hcarried : (scale * (cur / first) - step scale index prev cur : ℚ) / cur ≤
        (scale * (prev / first) - index) / prev + (prev / first + 1) / cur := by
      rw [div_le_iff₀ hcur']
      have hsplit : ((scale * (prev / first) - index) / prev + (prev / first + 1) / cur : ℚ) * cur =
          scale * (cur / first) - index * (cur / prev) + (prev / first + 1) := by
        field_simp
      rw [hsplit]
      linarith
    show _ ≤ (scale * (prev / first) - index : ℚ) / prev + ((prev / first + 1) / cur + loss first (cur :: rest))
    linarith

/-- The chain from one. -/
theorem chain_scale_bounds (hscale : 0 < scale) {rest : List ℤ} (hpos : ∀ v ∈ first :: rest, 0 < v) :
    (chain scale scale (first :: rest) : ℚ) ≤ scale * ((first :: rest).getLast (by simp) / first) ∧
      scale * ((first :: rest).getLast (by simp) / first : ℚ) - chain scale scale (first :: rest) ≤
        (first :: rest).getLast (by simp) * loss first (first :: rest) := by
  have hfirst := hpos first List.mem_cons_self
  have hone : (scale : ℚ) * (first / first) = scale := by
    rw [div_self (by exact_mod_cast hfirst.ne'), mul_one]
  obtain ⟨hupper, hlower⟩ := chain_bounds hscale hfirst hpos hscale.le hone.ge
  refine ⟨hupper, ?_⟩
  rwa [hone, sub_self, zero_div, zero_add] at hlower

end Chain

end FloorChain
