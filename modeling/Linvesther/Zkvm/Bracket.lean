import Linvesther.Base.Signed
import Linvesther.Base.Enclosure

/-! `bracket.rs`: brackets of 128-bit integers around real numbers, each operation rounding
outwards. -/

namespace Linvesther.Statistics

open Enclosure

abbrev I128 := Signed 128

def SCALE : I128 := 1000000000000

def MAX : I128 := ⟨2 ^ 127 - 1, by decide⟩

def MIN : I128 := ⟨-2 ^ 127, by decide⟩

section Definitions

/-- The loop of `isqrt_floor`. -/
def newton (n x y : I128) : I128 :=
  if y < x then newton n y ((y + n / y) / 2) else x
termination_by (x.val + 2 ^ 127).toNat
decreasing_by
  rename_i h
  have hlt : y.val < x.val := h
  have hy := y.fits.1
  omega

def isqrtFloor (n : I128) : I128 :=
  if n ≤ 0 then 0 else newton n n ((n + 1) / 2)

structure Bracket where
  lower : I128
  upper : I128
deriving DecidableEq

def Bracket.exact (v : I128) : Bracket := ⟨v, v⟩

def sqrtBracketScaled (num den outScale : I128) : Option Bracket := do
  if den ≤ 0 ∨ num < 0 then none
  else
    let scaledNum ← (← num.checkedMul outScale).checkedMul outScale
    let floorDiv := scaledNum / den
    let ceilDiv := if scaledNum % den ≠ 0 then floorDiv + 1 else floorDiv
    let lower := isqrtFloor floorDiv
    let upper := isqrtFloor ceilDiv
    let upper := if (← upper.checkedMul upper) < ceilDiv then upper + 1 else upper
    pure ⟨lower, upper⟩

def sqrtOfScaled (v : I128) : Option Bracket := do
  if v < 0 then none
  else
    let scaled ← v.checkedMul SCALE
    let lower := isqrtFloor scaled
    let upper := lower
    let upper := if (← upper.checkedMul upper) < scaled then upper + 1 else upper
    pure ⟨lower, upper⟩

def sqrtOfBracket (b : Bracket) : Option Bracket := do
  let lower ← sqrtOfScaled b.lower
  let upper ← sqrtOfScaled b.upper
  pure ⟨lower.lower, upper.upper⟩

def mulBracketNonneg (a b : Bracket) : Option Bracket := do
  let lowerNum ← a.lower.checkedMul b.lower
  let upperNum ← a.upper.checkedMul b.upper
  let lower := lowerNum / SCALE
  let upper := if upperNum % SCALE ≠ 0 then upperNum / SCALE + 1 else upperNum / SCALE
  pure ⟨lower, upper⟩

/-- One corner of `ratio_bracket`. -/
def widen (m n : I128) (b : Bracket) (corner : I128 × I128) : Option Bracket := do
  let num ← corner.1.checkedMul m
  let den ← n.checkedMul corner.2
  if den = 0 then none
  else
    let fl := num.divEuclid den
    let ce := if num.remEuclid den ≠ 0 then fl + 1 else fl
    pure ⟨min b.lower fl, max b.upper ce⟩

def ratioBracket (t : Bracket) (m n : I128) (s : Bracket) : Option Bracket :=
  let corners := [(t.lower, s.lower), (t.lower, s.upper), (t.upper, s.lower), (t.upper, s.upper)]
  corners.foldlM (widen m n) ⟨MAX, MIN⟩

end Definitions

section Roots

theorem val_half {a : I128} (ha : 0 ≤ a.val) : (a / 2).val = a.val / 2 :=
  Signed.val_div ha (by decide)

/-- The next guess, which does not overflow. -/
theorem val_guess {n x : I128} (hmax : n.val < 2 ^ 127 - 1) (hx : 0 < x.val)
    (hxn : x.val ≤ n.val) : ((x + n / x) / 2).val = (x.val + n.val / x.val) / 2 := by
  have hdiv := Signed.val_div (hx.le.trans hxn) hx
  have hnonneg : 0 ≤ n.val / x.val := Int.ediv_nonneg (hx.le.trans hxn) hx.le
  have hle := add_ediv_le hx hxn
  have hadd : (x + n / x).val = x.val + n.val / x.val := by
    rw [← hdiv]
    apply Signed.val_add
    rw [hdiv]
    unfold Fits
    omega
  rw [val_half (by omega), hadd]

theorem newton_isRoot {n x y : I128} (hmax : n.val < 2 ^ 127 - 1) (hx : 0 < x.val)
    (hxn : x.val ≤ n.val) (hroot : n.val < (x.val + 1) * (x.val + 1))
    (hy : y.val = (x.val + n.val / x.val) / 2) : IsRoot n.val (newton n x y).val := by
  induction x, y using newton.induct n with
  | case1 x y hlt ih =>
    rw [newton, if_pos hlt]
    have hlt : y.val < x.val := hlt
    have hquotient : 1 ≤ n.val / x.val := (Int.le_ediv_iff_mul_le hx).2 (by linarith)
    have hypos : 0 < y.val := by omega
    have hyn : y.val ≤ n.val := by omega
    apply ih hypos hyn
    · rw [hy]
      exact lt_newton_succ_sq (by omega) hx
    · exact val_guess hmax hypos hyn
  | case2 x y hge =>
    rw [newton, if_neg hge]
    have hge : ¬ y.val < x.val := hge
    exact ⟨hx.le, newton_sq_le hx (by omega), hroot⟩

/-- The only number whose root is wrong is the greatest, where `x + 1` overflows. -/
theorem isqrtFloor_isRoot {n : I128} (hn : 0 ≤ n.val) (hmax : n.val < 2 ^ 127 - 1) :
    IsRoot n.val (isqrtFloor n).val := by
  unfold isqrtFloor
  split_ifs with h
  · have hzero : n.val = 0 := le_antisymm h hn
    rw [hzero]
    exact ⟨by decide, by decide, by decide⟩
  · have hpos : 0 < n.val := not_le.1 h
    apply newton_isRoot hmax hpos le_rfl
    · nlinarith
    · have hadd : (n + 1).val = n.val + 1 := by
        apply Signed.val_add
        show Fits 128 (n.val + 1)
        unfold Fits
        omega
      rw [val_half (by omega), hadd, Int.ediv_self hpos.ne']

/-- Of the greatest number the first guess is negative, and the loop ends there. -/
theorem isqrtFloor_MAX : isqrtFloor MAX = ⟨-2 ^ 126, by decide⟩ := by
  have hfirst : (MAX + 1) / 2 = (⟨-2 ^ 126, by decide⟩ : I128) := by decide
  have hsecond : ((⟨-2 ^ 126, by decide⟩ : I128) + MAX / ⟨-2 ^ 126, by decide⟩) / 2 = ⟨-2 ^ 125, by decide⟩ := by decide
  unfold isqrtFloor
  rw [if_neg (by decide), hfirst, newton, if_pos (by decide), hsecond, newton, if_neg (by decide)]

end Roots

section Rounding

theorem val_ceilDiv {a b : I128} (ha : 0 ≤ a.val) (hb : 0 < b.val)
    (hmax : 2 ≤ b.val ∨ a.val < 2 ^ 127 - 1) :
    (if a % b ≠ 0 then a / b + 1 else a / b).val = ceilDiv a.val b.val := by
  have hdiv := Signed.val_div ha hb
  have hmod : a % b ≠ 0 ↔ a.val % b.val ≠ 0 := by
    rw [← Signed.val_mod ha hb, ne_eq, ne_eq, Signed.ext_iff]
    rfl
  have hfits : Fits 128 (a.val / b.val + 1) := by
    have hle := Int.ediv_le_self b.val ha
    have hnonneg := Int.ediv_nonneg ha hb.le
    have hbound := a.fits.2
    have hhalf : 2 ≤ b.val → a.val / b.val * 2 ≤ a.val := fun h =>
      (mul_le_mul_of_nonneg_left h hnonneg).trans (Int.ediv_mul_le a.val hb.ne')
    unfold Fits
    omega
  have hsucc : (a / b + 1).val = a.val / b.val + 1 := by
    rw [← hdiv]
    apply Signed.val_add
    rw [hdiv]
    exact hfits
  unfold ceilDiv
  simp only [hmod]
  split_ifs
  · exact hsucc
  · exact hdiv

/-- A quotient with a remainder is less than half of the dividend, so adding 1 does not overflow. -/
theorem val_ceilDivEuclid {a b : I128} (hb : 0 < b.val) :
    (if a.remEuclid b ≠ 0 then a.divEuclid b + 1 else a.divEuclid b).val =
      ceilDiv a.val b.val := by
  have hdiv := Signed.val_divEuclid (a := a) hb
  have hmod : a.remEuclid b ≠ 0 ↔ a.val % b.val ≠ 0 := by
    rw [← Signed.val_remEuclid hb, ne_eq, ne_eq, Signed.ext_iff]
    rfl
  unfold ceilDiv
  simp only [hmod]
  split_ifs with hrem
  · rw [← hdiv]
    apply Signed.val_add
    have hsplit := Int.emod_add_mul_ediv a.val b.val
    have hnonneg := Int.emod_nonneg a.val hb.ne'
    have hlt := Int.emod_lt_of_pos a.val hb
    have hquotient := (a.divEuclid b).fits
    have hupper := a.fits.2
    rw [hdiv] at hquotient ⊢
    show Fits 128 (a.val / b.val + 1)
    rcases le_or_gt 0 (a.val / b.val) with hq | hq
    · have htwo : 2 * (a.val / b.val) ≤ b.val * (a.val / b.val) :=
        mul_le_mul_of_nonneg_right (by omega) hq
      unfold Fits at *
      omega
    · unfold Fits at *
      omega
  · exact hdiv

/-- A root that is not exact is rounded up without an overflow. -/
theorem val_roundUp {n r sq : I128} (h : IsRoot n.val r.val) (hsq : r.checkedMul r = some sq) :
    (if sq < n then r + 1 else r).val =
      if r.val * r.val < n.val then r.val + 1 else r.val := by
  have hlt : sq < n ↔ r.val * r.val < n.val := by
    rw [← Signed.checkedMul_eq_some.1 hsq]
    rfl
  simp only [hlt]
  split_ifs with hinexact
  · apply Signed.val_add
    have hself : r.val ≤ r.val * r.val := by nlinarith [h.nonneg]
    exact Signed.fits_of_le (by have := h.nonneg; show 0 ≤ r.val + 1; omega)
      (show r.val + 1 ≤ n.val by omega)
  · rfl

end Rounding

section Enclosures

/-- The real number lies in the bracket. -/
structure Bracket.Encloses (b : Bracket) (x : ℝ) : Prop where
  lower_le : (b.lower.val : ℝ) ≤ x
  le_upper : x ≤ b.upper.val

/-- The square of the number whose root is wrong does not fit, so that no bracket comes of it. -/
theorem sqrtBracketScaled_ok {num den outScale : I128} {b : Bracket}
    (h : sqrtBracketScaled num den outScale = some b) :
    b.Encloses (|(outScale.val : ℝ)| * √(num.val / den.val)) ∧ 0 ≤ b.lower.val := by
  unfold sqrtBracketScaled at h
  split_ifs at h with hsign
  obtain ⟨hden, hnum⟩ := not_or.1 hsign
  have hden : 0 < den.val := not_le.1 hden
  have hnum : 0 ≤ num.val := not_lt.1 hnum
  simp only [Option.bind_eq_bind, Option.bind_eq_some_iff, Option.pure_def,
    Option.some.injEq] at h
  obtain ⟨half, hhalf, scaled, hscaled, sq, hsq, rfl⟩ := h
  have hval : scaled.val = num.val * (outScale.val * outScale.val) := by
    rw [Signed.checkedMul_eq_some.1 hscaled, Signed.checkedMul_eq_some.1 hhalf, mul_assoc]
  have hnonneg : 0 ≤ scaled.val := hval ▸ mul_nonneg hnum (mul_self_nonneg _)
  have hmax : 2 ≤ den.val ∨ scaled.val < 2 ^ 127 - 1 := by
    by_contra hcon
    push Not at hcon
    have hone : den.val = 1 := by omega
    have hlargest : scaled.val = 2 ^ 127 - 1 := by
      have hfits := scaled.fits.2
      omega
    have hquotient : scaled / den = MAX := Signed.ext (by rw [Signed.val_div hnonneg hden, hone, Int.ediv_one, hlargest]; rfl)
    have hexact : ¬ scaled % den ≠ 0 := not_not.2 (Signed.ext (by rw [Signed.val_mod hnonneg hden, hone, Int.emod_one]; rfl))
    rw [if_neg hexact, hquotient, isqrtFloor_MAX] at hsq
    have hnone : Signed.checkedMul (⟨-2 ^ 126, by decide⟩ : I128) ⟨-2 ^ 126, by decide⟩ = none := by decide
    rw [hnone] at hsq
    cases hsq
  have hfloor := Signed.val_div hnonneg hden
  have hceil := val_ceilDiv hnonneg hden hmax
  have hceilmax : ceilDiv scaled.val den.val < 2 ^ 127 - 1 := by
    have hbound := scaled.fits.2
    rcases hmax with hmax | hmax
    · have := two_mul_ceilDiv_le hnonneg hmax
      omega
    · exact (ceilDiv_le hnonneg hden).trans_lt hmax
  have hlower := isqrtFloor_isRoot (n := scaled / den) (by
    rw [hfloor]
    exact Int.ediv_nonneg hnonneg hden.le) (by
    rw [hfloor]
    exact (ediv_le_ceilDiv _ _).trans_lt hceilmax)
  have hupper := isqrtFloor_isRoot
    (n := if scaled % den ≠ 0 then scaled / den + 1 else scaled / den) (by
    rw [hceil]
    exact ceilDiv_nonneg hnonneg hden) (by
    rw [hceil]
    exact hceilmax)
  have hroot : |(outScale.val : ℝ)| * √(num.val / den.val) = √((scaled.val : ℝ) / den.val) := by
    have hfactor : (scaled.val : ℝ) / den.val =
        (outScale.val : ℝ) ^ 2 * ((num.val : ℝ) / den.val) := by
      rw [hval]
      push_cast
      ring
    rw [hfactor, Real.sqrt_mul (sq_nonneg _), Real.sqrt_sq_eq_abs]
  rw [hroot]
  refine ⟨⟨hlower.le_sqrt.trans ?_, ?_⟩, hlower.nonneg⟩
  · apply Real.sqrt_le_sqrt
    rw [hfloor]
    exact floor_le hden
  · show _ ≤ (((if sq < _ then _ else _ : I128)).val : ℝ)
    rw [val_roundUp hupper hsq]
    refine le_trans (Real.sqrt_le_sqrt ?_) hupper.sqrt_le
    rw [hceil]
    exact le_ceil hden

theorem sqrtBracketScaled_encloses {num den outScale : I128} {b : Bracket}
    (h : sqrtBracketScaled num den outScale = some b) (hout : 0 ≤ outScale.val) :
    b.Encloses (outScale.val * √(num.val / den.val)) ∧ 0 ≤ b.lower.val := by
  have hok := sqrtBracketScaled_ok h
  rwa [abs_of_nonneg (by exact_mod_cast hout)] at hok

theorem val_SCALE : SCALE.val = 10 ^ 12 := by decide

theorem cast_SCALE : (SCALE.val : ℝ) = 10 ^ 12 := by
  rw [val_SCALE]
  norm_num

/-- The scaled number is even, so it is never the one whose root is wrong. -/
theorem sqrtOfScaled_encloses {v : I128} {b : Bracket} (h : sqrtOfScaled v = some b) :
    b.Encloses (√(v.val * 10 ^ 12)) ∧ 0 ≤ b.lower.val ∧ 0 ≤ v.val := by
  unfold sqrtOfScaled at h
  split_ifs at h with hsign
  have hv : 0 ≤ v.val := not_lt.1 hsign
  simp only [Option.bind_eq_bind, Option.bind_eq_some_iff, Option.pure_def,
    Option.some.injEq] at h
  obtain ⟨scaled, hscaled, sq, hsq, rfl⟩ := h
  have hval : scaled.val = v.val * 10 ^ 12 := by
    rw [Signed.checkedMul_eq_some.1 hscaled, val_SCALE]
  have hroot := isqrtFloor_isRoot (n := scaled) (by omega) (by
    have := scaled.fits.2
    omega)
  have hcast : (v.val : ℝ) * 10 ^ 12 = (scaled.val : ℝ) := by
    rw [hval]
    push_cast
    ring
  rw [hcast]
  refine ⟨⟨hroot.le_sqrt, ?_⟩, hroot.nonneg, hv⟩
  show _ ≤ (((if sq < _ then _ else _ : I128)).val : ℝ)
  rw [val_roundUp hroot hsq]
  exact hroot.sqrt_le

theorem sqrtOfBracket_encloses {b b' : Bracket} {x : ℝ} (h : sqrtOfBracket b = some b')
    (hb : b.Encloses (10 ^ 12 * x)) : b'.Encloses (10 ^ 12 * √x) ∧ 0 ≤ b'.lower.val := by
  unfold sqrtOfBracket at h
  simp only [Option.bind_eq_bind, Option.bind_eq_some_iff, Option.pure_def,
    Option.some.injEq] at h
  obtain ⟨lower, hlower, upper, hupper, rfl⟩ := h
  obtain ⟨hencl, hnonneg, -⟩ := sqrtOfScaled_encloses hlower
  obtain ⟨hencu, -, -⟩ := sqrtOfScaled_encloses hupper
  have hroot : (10 : ℝ) ^ 12 * √x = √(10 ^ 12 * x * 10 ^ 12) := by
    rw [show (10 : ℝ) ^ 12 * x * 10 ^ 12 = (10 ^ 12) ^ 2 * x by ring,
      Real.sqrt_mul (by positivity), Real.sqrt_sq (by positivity)]
  rw [hroot]
  refine ⟨⟨hencl.lower_le.trans ?_, le_trans ?_ hencu.le_upper⟩, hnonneg⟩
  · apply Real.sqrt_le_sqrt
    exact mul_le_mul_of_nonneg_right hb.lower_le (by positivity)
  · apply Real.sqrt_le_sqrt
    exact mul_le_mul_of_nonneg_right hb.le_upper (by positivity)

theorem mulBracketNonneg_encloses {a b c : Bracket} {x y : ℝ}
    (h : mulBracketNonneg a b = some c) (ha : a.Encloses (10 ^ 12 * x))
    (hb : b.Encloses (10 ^ 12 * y)) (ha0 : 0 ≤ a.lower.val) (hb0 : 0 ≤ b.lower.val) :
    c.Encloses (10 ^ 12 * (x * y)) ∧ 0 ≤ c.lower.val := by
  unfold mulBracketNonneg at h
  simp only [Option.bind_eq_bind, Option.bind_eq_some_iff, Option.pure_def,
    Option.some.injEq] at h
  obtain ⟨lowerNum, hlower, upperNum, hupper, rfl⟩ := h
  have hscale : (0 : ℤ) < SCALE.val := by decide
  have hlower' := Signed.checkedMul_eq_some.1 hlower
  have hupper' := Signed.checkedMul_eq_some.1 hupper
  have hale : a.lower.val ≤ a.upper.val := by exact_mod_cast ha.lower_le.trans ha.le_upper
  have hble : b.lower.val ≤ b.upper.val := by exact_mod_cast hb.lower_le.trans hb.le_upper
  have hlower0 : 0 ≤ lowerNum.val := by
    rw [hlower']
    positivity
  have hupper0 : 0 ≤ upperNum.val := by
    rw [hupper']
    exact mul_nonneg (ha0.trans hale) (hb0.trans hble)
  have hfloor := Signed.val_div hlower0 hscale
  have hceil := val_ceilDiv hupper0 hscale (.inl (by decide))
  have ha0' : (0 : ℝ) ≤ a.lower.val := by exact_mod_cast ha0
  have hb0' : (0 : ℝ) ≤ b.lower.val := by exact_mod_cast hb0
  have hproduct : (10 : ℝ) ^ 12 * (x * y) = 10 ^ 12 * x * (10 ^ 12 * y) / (SCALE.val : ℝ) := by
    rw [cast_SCALE]
    ring
  have hscale' : (0 : ℝ) < SCALE.val := by exact_mod_cast hscale
  rw [hproduct]
  refine ⟨⟨?_, ?_⟩, ?_⟩
  · rw [hfloor]
    refine (floor_le hscale).trans ?_
    rw [div_le_div_iff_of_pos_right hscale', hlower']
    push_cast
    exact mul_le_mul ha.lower_le hb.lower_le hb0' (ha0'.trans ha.lower_le)
  · show _ ≤ (((if upperNum % SCALE ≠ 0 then _ else _ : I128)).val : ℝ)
    rw [hceil]
    refine le_trans ?_ (le_ceil hscale)
    rw [div_le_div_iff_of_pos_right hscale', hupper']
    push_cast
    exact mul_le_mul ha.le_upper hb.le_upper (hb0'.trans hb.lower_le)
      (ha0'.trans (ha.lower_le.trans ha.le_upper))
  · rw [hfloor]
    exact Int.ediv_nonneg hlower0 hscale.le

/-- A corner is refused only for a divisor of zero. -/
theorem widen_ne_zero {m n : I128} {b b' : Bracket} {corner : I128 × I128} (h : widen m n b corner = some b') :
    n.val * corner.2.val ≠ 0 := by
  unfold widen at h
  simp only [Option.bind_eq_bind, Option.bind_eq_some_iff] at h
  obtain ⟨num, hnum, den, hden, h⟩ := h
  intro hzero
  have hden0 : den = 0 := Signed.ext ((Signed.checkedMul_eq_some.1 hden).trans hzero)
  rw [if_pos hden0] at h
  cases h

/-- A corner adds its quotient, rounded both ways. -/
theorem widen_eq {m n : I128} {b b' : Bracket} {corner : I128 × I128}
    (h : widen m n b corner = some b') (hpos : 0 < n.val * corner.2.val) :
    b'.lower.val = min b.lower.val (corner.1.val * m.val / (n.val * corner.2.val)) ∧
      b'.upper.val = max b.upper.val (ceilDiv (corner.1.val * m.val) (n.val * corner.2.val)) := by
  unfold widen at h
  simp only [Option.bind_eq_bind, Option.bind_eq_some_iff] at h
  obtain ⟨num, hnum, den, hden, h⟩ := h
  have hnum' := Signed.checkedMul_eq_some.1 hnum
  have hden' := Signed.checkedMul_eq_some.1 hden
  by_cases hzero : den = 0
  · simp [hzero] at h
  rw [if_neg hzero] at h
  simp only [Option.pure_def, Option.some.injEq] at h
  subst h
  have hden0 : 0 < den.val := hden' ▸ hpos
  rw [← hnum', ← hden']
  constructor
  · rw [← Signed.val_divEuclid hden0]
    exact Signed.val_min _ _
  · rw [← val_ceilDivEuclid hden0]
    exact Signed.val_max _ _

theorem widen_ok {m n : I128} {b b' : Bracket} {corner : I128 × I128}
    (h : widen m n b corner = some b') (hpos : 0 < n.val * corner.2.val) :
    b'.lower.val ≤ b.lower.val ∧ b.upper.val ≤ b'.upper.val ∧
      b'.Encloses (corner.1.val * m.val / (n.val * corner.2.val)) := by
  obtain ⟨hlower, hupper⟩ := widen_eq h hpos
  have hfloor := floor_le (a := corner.1.val * m.val) hpos
  have hceil := le_ceil (a := corner.1.val * m.val) hpos
  push_cast at hfloor hceil
  refine ⟨hlower ▸ min_le_left _ _, hupper ▸ le_max_left _ _, ?_, ?_⟩
  · rw [hlower]
    refine le_trans ?_ hfloor
    exact_mod_cast min_le_right _ _
  · rw [hupper]
    refine hceil.trans ?_
    exact_mod_cast le_max_right _ _

theorem widen_sign {m n : I128} {b b' : Bracket} {corner : I128 × I128}
    (h : widen m n b corner = some b') (hn : 0 < n.val) (hfirst : 0 ≤ corner.1.val)
    (hcorner : 0 ≤ corner.2.val) :
    (0 ≤ m.val → 0 ≤ b.lower.val → 0 ≤ b'.lower.val) ∧
      (m.val ≤ 0 → b.upper.val ≤ 0 → b'.upper.val ≤ 0) := by
  have hden : 0 < n.val * corner.2.val := lt_of_le_of_ne (mul_nonneg hn.le hcorner) (widen_ne_zero h).symm
  obtain ⟨hlower, hupper⟩ := widen_eq h hden
  constructor
  · intro hm hb
    rw [hlower]
    exact le_min hb (Int.ediv_nonneg (mul_nonneg hfirst hm) hden.le)
  · intro hm hb
    rw [hupper]
    exact max_le hb (ceilDiv_nonpos (mul_nonpos_of_nonneg_of_nonpos hfirst hm) hden)

theorem foldlM_widen_ne_zero {m n : I128} {corners : List (I128 × I128)} {b b' : Bracket}
    (h : corners.foldlM (widen m n) b = some b') : ∀ corner ∈ corners, n.val * corner.2.val ≠ 0 := by
  induction corners generalizing b with
  | nil => exact fun corner hmem => absurd hmem List.not_mem_nil
  | cons corner corners ih =>
    simp only [List.foldlM_cons, Option.bind_eq_bind, Option.bind_eq_some_iff] at h
    obtain ⟨b₁, hstep, hrest⟩ := h
    exact List.forall_mem_cons.2 ⟨widen_ne_zero hstep, ih hrest⟩

/-- What all corners add to it. -/
theorem foldlM_widen_ok {m n : I128} {corners : List (I128 × I128)} {b b' : Bracket}
    (h : corners.foldlM (widen m n) b = some b') (hcorners : ∀ corner ∈ corners, 0 < n.val * corner.2.val) :
    b'.lower.val ≤ b.lower.val ∧ b.upper.val ≤ b'.upper.val ∧ ∀ corner ∈ corners,
      b'.Encloses (corner.1.val * m.val / (n.val * corner.2.val)) := by
  induction corners generalizing b with
  | nil =>
    simp only [List.foldlM_nil, Option.pure_def, Option.some.injEq] at h
    subst h
    exact ⟨le_rfl, le_rfl, fun corner hmem => absurd hmem List.not_mem_nil⟩
  | cons corner corners ih =>
    simp only [List.foldlM_cons, Option.bind_eq_bind, Option.bind_eq_some_iff] at h
    obtain ⟨b₁, hstep, hrest⟩ := h
    obtain ⟨hpos, hcorners⟩ := List.forall_mem_cons.1 hcorners
    obtain ⟨hlower, hupper, henc⟩ := widen_ok hstep hpos
    obtain ⟨hlower', hupper', hall⟩ := ih hrest hcorners
    refine ⟨hlower'.trans hlower, hupper.trans hupper', List.forall_mem_cons.2 ⟨⟨le_trans ?_ henc.lower_le, ?_⟩, hall⟩⟩
    · exact_mod_cast hlower'
    · refine henc.le_upper.trans ?_
      exact_mod_cast hupper'

/-- A bracket of quotients of one sign does not cross zero. -/
theorem foldlM_widen_sign {m n : I128} {corners : List (I128 × I128)} {b b' : Bracket}
    (h : corners.foldlM (widen m n) b = some b') (hn : 0 < n.val)
    (hcorners : ∀ corner ∈ corners, 0 ≤ corner.1.val ∧ 0 ≤ corner.2.val) :
    (0 ≤ m.val → 0 ≤ b.lower.val → 0 ≤ b'.lower.val) ∧
      (m.val ≤ 0 → b.upper.val ≤ 0 → b'.upper.val ≤ 0) := by
  induction corners generalizing b with
  | nil =>
    simp only [List.foldlM_nil, Option.pure_def, Option.some.injEq] at h
    subst h
    exact ⟨fun _ h => h, fun _ h => h⟩
  | cons corner corners ih =>
    simp only [List.foldlM_cons, Option.bind_eq_bind, Option.bind_eq_some_iff] at h
    obtain ⟨b₁, hstep, hrest⟩ := h
    obtain ⟨h1, h2⟩ := hcorners corner List.mem_cons_self
    obtain ⟨hlower, hupper⟩ := ih hrest fun c hc => hcorners c (List.mem_cons_of_mem _ hc)
    obtain ⟨hsl, hsu⟩ := widen_sign hstep hn h1 h2
    exact ⟨fun hm hb => hlower hm (hsl hm hb), fun hm hb => hupper hm (hsu hm hb)⟩

theorem ratioBracket_sign {t s b : Bracket} {m n : I128} (h : ratioBracket t m n s = some b)
    (hn : 0 < n.val) (ht0 : 0 ≤ t.lower.val) (htu : 0 ≤ t.upper.val) (hs0 : 0 ≤ s.lower.val)
    (hsu : 0 ≤ s.upper.val) :
    (0 ≤ m.val → 0 ≤ b.lower.val) ∧ (m.val ≤ 0 → b.upper.val ≤ 0) := by
  obtain ⟨hlower, hupper⟩ := foldlM_widen_sign h hn (by simp [ht0, htu, hs0, hsu])
  exact ⟨fun hm => hlower hm (by decide), fun hm => hupper hm (by decide)⟩

theorem Bracket.Encloses.between {b : Bracket} {p q k x : ℝ} (hp : b.Encloses (p * k)) (hq : b.Encloses (q * k))
    (hpx : p ≤ x) (hxq : x ≤ q) : b.Encloses (x * k) :=
  ⟨le_mul_of_ends hp.lower_le hq.lower_le hpx hxq, mul_le_of_ends hp.le_upper hq.le_upper hpx hxq⟩

/-- Over a box on which the divisor stays positive. The quotient is linear in the one side and in the inverse of the other,
so that its extremes are at corners. -/
theorem ratioBracket_box {t s b : Bracket} {m n : I128} {x y : ℝ} (h : ratioBracket t m n s = some b)
    (hlower : 0 < n.val * s.lower.val) (hupper : 0 < n.val * s.upper.val) (ht : t.Encloses x) (hs : s.Encloses y) :
    b.Encloses (x * m.val / (n.val * y)) := by
  obtain ⟨-, -, hall⟩ := foldlM_widen_ok h (by simp [hlower, hupper])
  simp only [List.forall_mem_cons] at hall
  obtain ⟨hll, hlu, hul, huu, -⟩ := hall
  obtain ⟨-, hinvLower, hinvUpper⟩ := inv_between (n := (n.val : ℝ)) (by exact_mod_cast hlower) (by exact_mod_cast hupper)
    hs.lower_le hs.le_upper
  have hlinear : ∀ u v : ℝ, u * m.val / (n.val * v) = u * (m.val / (n.val * v)) := fun u v => mul_div_assoc _ _ _
  have hinverse : ∀ u v : ℝ, u * (m.val / (n.val * v)) = v⁻¹ * (u * m.val / n.val) := fun u v => by ring
  rw [hlinear] at hll hlu hul huu ⊢
  have hatLower := hll.between hul ht.lower_le ht.le_upper
  have hatUpper := hlu.between huu ht.lower_le ht.le_upper
  rw [hinverse] at hatLower hatUpper ⊢
  exact hatUpper.between hatLower hinvLower hinvUpper

theorem ratioBracket_encloses {t s b : Bracket} {m n : I128} {x y : ℝ}
    (h : ratioBracket t m n s = some b) (hn : 0 < n.val) (ht : t.Encloses x) (hs : s.Encloses y)
    (hs0 : 0 ≤ s.lower.val) : b.Encloses (x * m.val / (n.val * y)) := by
  have hsle : s.lower.val ≤ s.upper.val := by exact_mod_cast hs.lower_le.trans hs.le_upper
  have hne := foldlM_widen_ne_zero h (t.lower, s.lower) List.mem_cons_self
  have hlower : 0 < n.val * s.lower.val := lt_of_le_of_ne (mul_nonneg hn.le hs0) hne.symm
  exact ratioBracket_box h hlower (hlower.trans_le (mul_le_mul_of_nonneg_left hsle hn.le)) ht hs

end Enclosures

end Linvesther.Statistics
