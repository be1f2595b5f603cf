import Linvesther.Zkvm.Bracket

/-! The operations of `bracket.rs` over all that they can be given: where the root is exact and nothing overflows, and what
a bracket that is returned holds. -/

namespace Linvesther.Statistics

open Enclosure

section Overflows

/-- The loop, stopped where an addition would overflow or a division be by zero. -/
def newtonChecked (n x y : I128) : Option I128 :=
  if y < x then
    if y = 0 then none
    else (y.checkedAdd (n / y)).bind fun sum => newtonChecked n y (sum / 2)
  else some x
termination_by (x.val + 2 ^ 127).toNat
decreasing_by
  rename_i h _
  have hlt : y.val < x.val := h
  have hy := y.fits.1
  omega

def isqrtFloorChecked (n : I128) : Option I128 :=
  if n ≤ 0 then some 0 else (n.checkedAdd 1).bind fun sum => newtonChecked n n (sum / 2)

theorem checkedAdd_quotient {n x : I128} (hmax : n.val < 2 ^ 127 - 1) (hx : 0 < x.val) (hxn : x.val ≤ n.val) :
    x.checkedAdd (n / x) = some (x + n / x) := by
  have hdiv := Signed.val_div (hx.le.trans hxn) hx
  have hnonneg : 0 ≤ n.val / x.val := Int.ediv_nonneg (hx.le.trans hxn) hx.le
  have hle := add_ediv_le hx hxn
  apply Signed.checkedAdd_eq_some.2
  apply Signed.val_add
  rw [hdiv]
  unfold Fits
  omega

theorem newtonChecked_eq {n x y : I128} (hmax : n.val < 2 ^ 127 - 1) (hx : 0 < x.val) (hxn : x.val ≤ n.val)
    (hy : y.val = (x.val + n.val / x.val) / 2) : newtonChecked n x y = some (newton n x y) := by
  induction x, y using newton.induct n with
  | case1 x y hlt ih =>
    rw [newtonChecked, newton, if_pos hlt, if_pos hlt]
    have hlt : y.val < x.val := hlt
    have hquotient : 1 ≤ n.val / x.val := (Int.le_ediv_iff_mul_le hx).2 (by linarith)
    have hypos : 0 < y.val := by omega
    have hyn : y.val ≤ n.val := by omega
    have hne : y ≠ 0 := by
      rintro rfl
      exact absurd hypos (by decide)
    rw [if_neg hne, checkedAdd_quotient hmax hypos hyn]
    exact ih hypos hyn (val_guess hmax hypos hyn)
  | case2 x y hge => rw [newtonChecked, newton, if_neg hge, if_neg hge]

theorem isqrtFloorChecked_eq {n : I128} (hmax : n.val < 2 ^ 127 - 1) : isqrtFloorChecked n = some (isqrtFloor n) := by
  unfold isqrtFloorChecked isqrtFloor
  split_ifs with h
  · rfl
  · have hpos : 0 < n.val := Signed.not_le.1 h
    have hsucc : (n + 1).val = n.val + 1 := by
      apply Signed.val_add
      show Fits 128 (n.val + 1)
      unfold Fits
      omega
    have hadd : n.checkedAdd 1 = some (n + 1) := Signed.checkedAdd_eq_some.2 hsucc
    rw [hadd, Option.bind_some]
    refine newtonChecked_eq hmax hpos le_rfl ?_
    rw [val_half (by omega), hsucc, Int.ediv_self hpos.ne']

/-- The root is exact, and nothing overflows on the way, for all numbers from zero up but the greatest. -/
theorem isqrtFloor_exact_iff (n : I128) :
    isqrtFloorChecked n = some (isqrtFloor n) ∧ IsRoot n.val (isqrtFloor n).val ↔ 0 ≤ n.val ∧ n ≠ MAX := by
  have hlargest : n ≠ MAX ↔ n.val < 2 ^ 127 - 1 := by
    have hfits := n.fits.2
    have hval : n = MAX ↔ n.val = 2 ^ 127 - 1 := Signed.ext_iff
    rw [Ne, hval]
    omega
  constructor
  · rintro ⟨hchecked, hroot⟩
    refine ⟨(mul_self_nonneg _).trans hroot.sq_le, ?_⟩
    rintro rfl
    have hnone : isqrtFloorChecked MAX = none := by
      unfold isqrtFloorChecked
      rw [if_neg (by decide), show MAX.checkedAdd 1 = none by decide]
      rfl
    rw [hnone] at hchecked
    cases hchecked
  · rintro ⟨hnonneg, hne⟩
    have hmax := hlargest.1 hne
    exact ⟨isqrtFloorChecked_eq hmax, isqrtFloor_isRoot hnonneg hmax⟩

end Overflows

section Operands

theorem sqrtOfScaled_exact {v : I128} {b : Bracket} (h : sqrtOfScaled v = some b) :
    b.Encloses (SCALE.val * √(v.val / SCALE.val)) := by
  have hencloses := (sqrtOfScaled_encloses h).1
  have hscaled : (SCALE.val : ℝ) * √(v.val / SCALE.val) = √(v.val * 10 ^ 12) := by
    have hfactor : (v.val : ℝ) * 10 ^ 12 = (10 ^ 12) ^ 2 * (v.val / 10 ^ 12) := by ring
    rw [cast_SCALE, hfactor, Real.sqrt_mul (by positivity), Real.sqrt_sq (by positivity)]
  rwa [hscaled]

theorem mulBracketNonneg_exact {a b c : Bracket} {x y : ℝ} (h : mulBracketNonneg a b = some c)
    (ha0 : 0 ≤ a.lower.val) (hb0 : 0 ≤ b.lower.val) (ha : a.Encloses x) (hb : b.Encloses y) :
    c.Encloses (x * y / SCALE.val) := by
  have hunscaled : ∀ z : ℝ, 10 ^ 12 * (z / 10 ^ 12) = z := fun z => mul_div_cancel₀ z (by positivity)
  have hencloses := mulBracketNonneg_encloses h ((hunscaled x).symm ▸ ha) ((hunscaled y).symm ▸ hb) ha0 hb0
  convert hencloses.1 using 1
  rw [cast_SCALE]
  ring

/-- What the operations do with exact operands inside their brackets. A root is asked of the numbers below the greatest, a
product of brackets that are not negative, and a ratio where its divisor stays positive. -/
structure ExactArithmetic : Prop where
  root : ∀ n : I128, 0 ≤ n.val → n ≠ MAX →
    isqrtFloorChecked n = some (isqrtFloor n) ∧ IsRoot n.val (isqrtFloor n).val
  quotientRoot : ∀ num den outScale b, sqrtBracketScaled num den outScale = some b →
    b.Encloses (|(outScale.val : ℝ)| * √(num.val / den.val))
  scaledRoot : ∀ v b, sqrtOfScaled v = some b → b.Encloses (SCALE.val * √(v.val / SCALE.val))
  product : ∀ a b c, mulBracketNonneg a b = some c → 0 ≤ a.lower.val → 0 ≤ b.lower.val →
    ∀ x y : ℝ, a.Encloses x → b.Encloses y → c.Encloses (x * y / SCALE.val)
  ratio : ∀ t m n s b, ratioBracket t m n s = some b → 0 < n.val * s.lower.val → 0 < n.val * s.upper.val →
    ∀ x y : ℝ, t.Encloses x → s.Encloses y → b.Encloses (x * m.val / (n.val * y))

theorem brackets_exact : ExactArithmetic where
  root n hnonneg hmax := (isqrtFloor_exact_iff n).2 ⟨hnonneg, hmax⟩
  quotientRoot _ _ _ _ h := (sqrtBracketScaled_ok h).1
  scaledRoot _ _ h := sqrtOfScaled_exact h
  product _ _ _ h ha0 hb0 _ _ ha hb := mulBracketNonneg_exact h ha0 hb0 ha hb
  ratio _ _ _ _ _ h hlower hupper _ _ ht hs := ratioBracket_box h hlower hupper ht hs

def minusOne : I128 := ⟨-1, by decide⟩

/-- A negative product is not in the bracket it is given. -/
theorem negative_product_lost :
    mulBracketNonneg (.exact minusOne) (.exact 1) = some ⟨0, 1⟩ ∧
      (Bracket.exact minusOne).Encloses (-1) ∧ (Bracket.exact 1).Encloses 1 ∧
      ¬ Bracket.Encloses ⟨0, 1⟩ (-1 * 1 / SCALE.val) := by
  have hone : ((1 : I128).val : ℝ) = 1 := by
    rw [show (1 : I128).val = 1 by decide]
    norm_num
  have hminus : (minusOne.val : ℝ) = -1 := by
    rw [show minusOne.val = -1 from rfl]
    norm_num
  refine ⟨by decide, ⟨hminus.le, hminus.ge⟩, ⟨hone.le, hone.ge⟩, fun h => ?_⟩
  have hlower := h.lower_le
  rw [cast_SCALE, show (0 : I128).val = 0 by decide] at hlower
  norm_num at hlower

end Operands

end Linvesther.Statistics
