import Linvesther.Zkvm.Statistics

/-! The bracket of the annualised growth. It encloses the growth with the exponent cut off after 40
bits, not the growth itself. -/

namespace Linvesther.Statistics

open Transaction Enclosure

section Expansion

/-- The loop after `j` bits, `m` being the number they form: both brackets hold the powers of the
ratio `x` they stand for. -/
structure Expands (x : ℝ) (d j m : ℕ) (s : Expansion) : Prop where
  remaining : s.remainingNum.val + m * d = 365 * 2 ^ j
  remaining_nonneg : 0 ≤ s.remainingNum.val
  remaining_le : s.remainingNum.val ≤ d
  remaining_lt : 365 < d → s.remainingNum.val < d
  term : s.term.Encloses (10 ^ 12 * x ^ ((1 : ℝ) / 2 ^ (j + 1)))
  term_nonneg : 0 ≤ s.term.lower.val
  result : s.result.Encloses (10 ^ 12 * x ^ ((m : ℝ) / 2 ^ j))
  result_nonneg : 0 ≤ s.result.lower.val

theorem sqrt_term {x : ℝ} (hx : 0 < x) (j : ℕ) :
    √(x ^ ((1 : ℝ) / 2 ^ (j + 1))) = x ^ ((1 : ℝ) / 2 ^ (j + 1 + 1)) := by
  rw [Real.sqrt_eq_rpow, ← Real.rpow_mul hx.le]
  congr 1
  rw [pow_succ _ (j + 1)]
  field_simp

theorem Expands.step {x : ℝ} {d j m : ℕ} {s s' : Expansion} {den : I128} (hx : 0 < x)
    (hden : den.val = d) (h : Expands x d j m s) (hstep : expandBit den s = some s') :
    ∃ m', Expands x d (j + 1) m' s' := by
  unfold expandBit at hstep
  simp only [Option.bind_eq_bind, Option.bind_eq_some_iff] at hstep
  obtain ⟨doubled, hdoubled, hstep⟩ := hstep
  have hdouble : doubled.val = s.remainingNum.val * 2 := Signed.checkedMul_eq_some.1 hdoubled
  have hremaining := h.remaining
  have hnonneg := h.remaining_nonneg
  have hle := h.remaining_le
  have hlt := h.remaining_lt
  by_cases hge : doubled ≥ den
  · rw [if_pos hge] at hstep
    simp only [Option.bind_eq_some_iff, Option.pure_def, Option.some.injEq] at hstep
    obtain ⟨result, hresult, term, hterm, rfl⟩ := hstep
    have hge' : den.val ≤ doubled.val := hge
    have hsub : (doubled - den).val = doubled.val - den.val := by
      apply Signed.val_sub
      exact Signed.fits_of_le (a := doubled) (by omega) (by omega)
    obtain ⟨hterm', hterm0⟩ := sqrtOfBracket_encloses hterm h.term
    obtain ⟨hresult', hresult0⟩ :=
      mulBracketNonneg_encloses hresult h.result h.term h.result_nonneg h.term_nonneg
    rw [sqrt_term hx] at hterm'
    rw [← Real.rpow_add hx] at hresult'
    refine ⟨2 * m + 1, ?_, ?_, ?_, ?_, hterm', hterm0, ?_, hresult0⟩
    · show (doubled - den).val + _ = _
      rw [hsub, hdouble, hden]
      push_cast
      rw [pow_succ]
      linarith
    · show 0 ≤ (doubled - den).val
      omega
    · show (doubled - den).val ≤ d
      omega
    · intro hd
      show (doubled - den).val < d
      have := hlt hd
      omega
    · convert hresult' using 3
      push_cast
      rw [pow_succ]
      field_simp
  · rw [if_neg hge] at hstep
    simp only [Option.bind_eq_some_iff, Option.pure_def, Option.some.injEq] at hstep
    obtain ⟨term, hterm, rfl⟩ := hstep
    have hlt' : doubled.val < den.val := not_le.1 hge
    obtain ⟨hterm', hterm0⟩ := sqrtOfBracket_encloses hterm h.term
    rw [sqrt_term hx] at hterm'
    refine ⟨2 * m, ?_, ?_, ?_, ?_, hterm', hterm0, ?_, h.result_nonneg⟩
    · show doubled.val + _ = _
      rw [hdouble]
      push_cast
      rw [pow_succ]
      linarith
    · show 0 ≤ doubled.val
      omega
    · show doubled.val ≤ d
      omega
    · intro _
      show doubled.val < d
      omega
    · convert h.result using 3
      push_cast
      rw [pow_succ]
      field_simp

theorem Expands.run {x : ℝ} {d j m bits : ℕ} {s s' : Expansion} {den : I128} (hx : 0 < x)
    (hden : den.val = d) (h : Expands x d j m s) (hrun : expandBits den bits s = some s') :
    ∃ m', Expands x d (j + bits) m' s' := by
  induction bits generalizing j m s with
  | zero =>
    simp only [expandBits, Option.some.injEq] at hrun
    subst hrun
    exact ⟨m, h⟩
  | succ bits ih =>
    simp only [expandBits, Option.bind_eq_bind, Option.bind_eq_some_iff] at hrun
    obtain ⟨s₁, hstep, hrest⟩ := hrun
    obtain ⟨m₁, h₁⟩ := h.step hx hden hstep
    have := ih h₁ hrest
    rwa [Nat.add_right_comm, Nat.add_assoc] at this

theorem Expands.init {x : ℝ} {d : ℕ} {term : Bracket} (hd : 365 ≤ d)
    (hterm : term.Encloses (10 ^ 12 * √x)) (hterm0 : 0 ≤ term.lower.val) :
    Expands x d 0 0 ⟨DAYS_PER_YEAR, .exact SCALE, term⟩ := by
  have hdays : DAYS_PER_YEAR.val = 365 := by decide
  have hscale : (SCALE.val : ℝ) = 10 ^ 12 := by
    rw [val_SCALE]
    norm_num
  rw [Real.sqrt_eq_rpow] at hterm
  refine ⟨?_, ?_, ?_, ?_, by simpa using hterm, hterm0, ⟨?_, ?_⟩, ?_⟩
  · show DAYS_PER_YEAR.val + _ = _
    rw [hdays]
    simp
  · show 0 ≤ DAYS_PER_YEAR.val
    omega
  · show DAYS_PER_YEAR.val ≤ d
    omega
  · intro hlt
    show DAYS_PER_YEAR.val < d
    omega
  · show (SCALE.val : ℝ) ≤ _
    simp [hscale]
  · show _ ≤ (SCALE.val : ℝ)
    simp [hscale]
  · show 0 ≤ SCALE.val
    decide

end Expansion

section Bracket

/-- The ratio of the indices, rounded to a bracket. -/
theorem ratio_encloses {indexStart indexEnd scaled : I128} (hstart : 0 < indexStart.val)
    (hend : 0 < indexEnd.val) (hscaled : indexEnd.checkedMul SCALE = some scaled) :
    Bracket.Encloses ⟨scaled / indexStart,
      if scaled % indexStart ≠ 0 then scaled / indexStart + 1 else scaled / indexStart⟩
      (10 ^ 12 * ((indexEnd.val : ℝ) / indexStart.val)) := by
  have hval : scaled.val = indexEnd.val * 10 ^ 12 := by
    rw [Signed.checkedMul_eq_some.1 hscaled, val_SCALE]
  have hnonneg : 0 ≤ scaled.val := by omega
  have hratio : (10 : ℝ) ^ 12 * ((indexEnd.val : ℝ) / indexStart.val) =
      (scaled.val : ℝ) / indexStart.val := by
    rw [hval]
    push_cast
    ring
  rw [hratio]
  constructor
  · rw [Signed.val_div hnonneg hstart]
    exact floor_le hstart
  · have hceil := val_ceilDiv hnonneg hstart (.inr (by
      have := scaled.fits.2
      omega))
    show _ ≤ (((if scaled % indexStart ≠ 0 then _ else _ : I128)).val : ℝ)
    rw [hceil]
    exact le_ceil hstart

/-- An accepted bracket is the one of the loop after all its bits, less 1. -/
theorem cagrBracket_ok {indexStart indexEnd : I128} {daysElapsed : UInt32} {b : Bracket}
    (h : cagrBracket indexStart indexEnd daysElapsed = .ok b) :
    0 < indexStart.val ∧ 0 < indexEnd.val ∧ 365 ≤ daysElapsed.toNat ∧ ∃ m s,
      Expands ((indexEnd.val : ℝ) / indexStart.val) daysElapsed.toNat 40 m s ∧
      s.result.lower.val = 10 ^ 12 + b.lower.val ∧ s.result.upper.val = 10 ^ 12 + b.upper.val := by
  unfold cagrBracket at h
  simp only [bind_ok, revertIf_ok, orRange_ok, pure_ok, not_or, exists_and_left, exists_const] at h
  obtain ⟨hdays, ⟨hstart, hend⟩, scaled, hscaled, term, hterm, s, hs, rfl⟩ := h
  have hstart : 0 < indexStart.val := not_le.1 hstart
  have hend : 0 < indexEnd.val := not_le.1 hend
  have hdays : 365 ≤ daysElapsed.toNat := not_lt.1 hdays
  have hx : (0 : ℝ) < (indexEnd.val : ℝ) / indexStart.val := by
    have hstart' : (0 : ℝ) < indexStart.val := by exact_mod_cast hstart
    have hend' : (0 : ℝ) < indexEnd.val := by exact_mod_cast hend
    positivity
  have hden : (Signed.wrap 128 daysElapsed.toNat).val = daysElapsed.toNat := by
    apply Signed.val_wrap
    have := daysElapsed.toNat_lt
    unfold Fits
    omega
  obtain ⟨hterm', hterm0⟩ := sqrtOfBracket_encloses hterm (ratio_encloses hstart hend hscaled)
  obtain ⟨m, hm⟩ := (Expands.init hdays hterm' hterm0).run hx hden hs
  refine ⟨hstart, hend, hdays, m, s, by simpa [CAGR_EXPANSION_BITS] using hm, ?_, ?_⟩
  · have hsub : (s.result.lower - SCALE).val = s.result.lower.val - SCALE.val := by
      apply Signed.val_sub
      have := hm.result_nonneg
      have := s.result.lower.fits.2
      rw [val_SCALE]
      unfold Fits
      omega
    show _ = 10 ^ 12 + (s.result.lower - SCALE).val
    rw [hsub, val_SCALE]
    ring
  · have hsub : (s.result.upper - SCALE).val = s.result.upper.val - SCALE.val := by
      apply Signed.val_sub
      have hle : s.result.lower.val ≤ s.result.upper.val := by
        exact_mod_cast hm.result.lower_le.trans hm.result.le_upper
      have := hm.result_nonneg
      have := s.result.upper.fits.2
      rw [val_SCALE]
      unfold Fits
      omega
    show _ = 10 ^ 12 + (s.result.upper - SCALE).val
    rw [hsub, val_SCALE]
    ring

end Bracket

section Certified

/-- The exponent has no bits beyond the ones the loop expands. -/
def ExactExponent (daysElapsed : UInt32) : Prop :=
  365 < daysElapsed.toNat ∧ daysElapsed.toNat ∣ 365 * 2 ^ 40

/-- The exact growth over a year is at least the lower end of the bracket. -/
def LowerHolds (indexStart indexEnd : I128) (daysElapsed : UInt32) (b : Bracket) : Prop :=
  (SCALE.val + b.lower.val) ^ daysElapsed.toNat * indexStart.val ^ 365 ≤
    indexEnd.val ^ 365 * SCALE.val ^ daysElapsed.toNat

/-- It is at most the upper end. -/
def UpperHolds (indexStart indexEnd : I128) (daysElapsed : UInt32) (b : Bracket) : Prop :=
  indexEnd.val ^ 365 * SCALE.val ^ daysElapsed.toNat ≤
    (SCALE.val + b.upper.val) ^ daysElapsed.toNat * indexStart.val ^ 365

theorem rpow_pow_days {x : ℝ} (hx : 0 < x) (m d : ℕ) :
    (x ^ ((m : ℝ) / 2 ^ 40)) ^ d = x ^ ((m * d : ℝ) / 2 ^ 40) := by
  rw [← Real.rpow_natCast, ← Real.rpow_mul hx.le]
  congr 1
  ring

/-- The number formed by all bits, and what is left of the exponent. -/
theorem Expands.exponent_le {x : ℝ} {d m : ℕ} {s : Expansion} (h : Expands x d 40 m s) :
    (m * d : ℝ) / 2 ^ 40 ≤ 365 := by
  have hle : (m * d : ℤ) ≤ 365 * 2 ^ 40 := by
    have := h.remaining
    have := h.remaining_nonneg
    omega
  rw [div_le_iff₀ (by positivity)]
  exact_mod_cast hle

theorem Expands.exponent_eq {x : ℝ} {d m : ℕ} {s : Expansion} (h : Expands x d 40 m s)
    (hd : 365 < d) (hdvd : d ∣ 365 * 2 ^ 40) : (m * d : ℝ) / 2 ^ 40 = 365 := by
  have hremaining := h.remaining
  have hdvd' : (d : ℤ) ∣ s.remainingNum.val := by
    have htotal : (d : ℤ) ∣ 365 * 2 ^ 40 := by exact_mod_cast hdvd
    rw [← hremaining] at htotal
    exact (Int.dvd_add_left (Dvd.intro_left _ rfl)).1 htotal
  have hzero : s.remainingNum.val = 0 :=
    Int.eq_zero_of_dvd_of_nonneg_of_lt h.remaining_nonneg (h.remaining_lt hd) hdvd'
  rw [hzero, zero_add] at hremaining
  rw [div_eq_iff (by positivity)]
  exact_mod_cast hremaining

/-- The growth to the power of the days. -/
theorem growth_pow {indexStart : ℤ} (indexEnd : ℤ) (hstart : 0 < indexStart) :
    ((indexEnd : ℝ) / indexStart) ^ (365 : ℝ) * indexStart ^ 365 = indexEnd ^ 365 := by
  have hstart' : (indexStart : ℝ) ≠ 0 := by exact_mod_cast hstart.ne'
  rw [show (365 : ℝ) = ((365 : ℕ) : ℝ) by norm_num, Real.rpow_natCast, div_pow,
    div_mul_cancel₀ _ (pow_ne_zero _ hstart')]

/-- The lower end can be wrong after a loss only and the upper end after a gain only, and only if
bits of the exponent are cut off. -/
theorem cagr_certified {indexStart indexEnd : I128} {daysElapsed : UInt32} {b : Bracket}
    (h : cagrBracket indexStart indexEnd daysElapsed = .ok b) :
    (indexStart.val ≤ indexEnd.val ∨ ExactExponent daysElapsed →
      LowerHolds indexStart indexEnd daysElapsed b) ∧
    (indexEnd.val ≤ indexStart.val ∨ ExactExponent daysElapsed →
      UpperHolds indexStart indexEnd daysElapsed b) := by
  obtain ⟨hstart, hend, -, m, s, hs, hlower, hupper⟩ := cagrBracket_ok h
  unfold LowerHolds UpperHolds
  rw [val_SCALE, ← hlower, ← hupper]
  set d := daysElapsed.toNat with hd
  set x : ℝ := (indexEnd.val : ℝ) / indexStart.val with hxdef
  have hstart' : (0 : ℝ) < indexStart.val := by exact_mod_cast hstart
  have hend' : (0 : ℝ) < indexEnd.val := by exact_mod_cast hend
  have hx : 0 < x := by positivity
  have hgrowth := growth_pow indexEnd.val hstart
  rw [← hxdef] at hgrowth
  have hlower0 : (0 : ℝ) ≤ s.result.lower.val := by exact_mod_cast hs.result_nonneg
  have hresult := hs.result
  constructor
  · intro hcase
    have hpow : x ^ ((m * d : ℝ) / 2 ^ 40) ≤ x ^ (365 : ℝ) := by
      rcases hcase with hgain | ⟨hdays, hdvd⟩
      · have hone : 1 ≤ x := (one_le_div hstart').2 (by exact_mod_cast hgain)
        exact Real.rpow_le_rpow_of_exponent_le hone hs.exponent_le
      · rw [hs.exponent_eq hdays hdvd]
    have hbound : (s.result.lower.val : ℝ) ^ d * indexStart.val ^ 365 ≤
        indexEnd.val ^ 365 * (10 ^ 12) ^ d := by
      calc (s.result.lower.val : ℝ) ^ d * indexStart.val ^ 365
          ≤ (10 ^ 12 * x ^ ((m : ℝ) / 2 ^ 40)) ^ d * indexStart.val ^ 365 := by
            gcongr
            exact hresult.lower_le
        _ = (10 ^ 12) ^ d * x ^ ((m * d : ℝ) / 2 ^ 40) * indexStart.val ^ 365 := by
            rw [mul_pow, rpow_pow_days hx]
        _ ≤ (10 ^ 12) ^ d * x ^ (365 : ℝ) * indexStart.val ^ 365 := by gcongr
        _ = indexEnd.val ^ 365 * (10 ^ 12) ^ d := by rw [mul_assoc, hgrowth, mul_comm]
    exact_mod_cast hbound
  · intro hcase
    have hpow : x ^ (365 : ℝ) ≤ x ^ ((m * d : ℝ) / 2 ^ 40) := by
      rcases hcase with hloss | ⟨hdays, hdvd⟩
      · have hone : x ≤ 1 := (div_le_one hstart').2 (by exact_mod_cast hloss)
        exact Real.rpow_le_rpow_of_exponent_ge hx hone hs.exponent_le
      · rw [hs.exponent_eq hdays hdvd]
    have hbound : (indexEnd.val : ℝ) ^ 365 * (10 ^ 12) ^ d ≤
        s.result.upper.val ^ d * indexStart.val ^ 365 := by
      calc (indexEnd.val : ℝ) ^ 365 * (10 ^ 12) ^ d
          = (10 ^ 12) ^ d * x ^ (365 : ℝ) * indexStart.val ^ 365 := by
            rw [mul_assoc, hgrowth, mul_comm]
        _ ≤ (10 ^ 12) ^ d * x ^ ((m * d : ℝ) / 2 ^ 40) * indexStart.val ^ 365 := by gcongr
        _ = (10 ^ 12 * x ^ ((m : ℝ) / 2 ^ 40)) ^ d * indexStart.val ^ 365 := by
            rw [mul_pow, rpow_pow_days hx]
        _ ≤ s.result.upper.val ^ d * indexStart.val ^ 365 := by
            gcongr
            exact hresult.le_upper
    exact_mod_cast hbound

/-- A growth to the fourfold in two years doubles every year. -/
theorem cagr_certified_fourfold : ∃ b, cagrBracket 1 4 730 = .ok b ∧
    LowerHolds 1 4 730 b ∧ UpperHolds 1 4 730 b := by
  have hrun : cagrBracket 1 4 730 = .ok ⟨1000000000000, 1000000000000⟩ := by decide +kernel
  have hexact : ExactExponent 730 := ⟨by decide, by decide⟩
  have hcertified := cagr_certified hrun
  exact ⟨_, hrun, hcertified.1 (.inr hexact), hcertified.2 (.inr hexact)⟩

/-- A growth to the millionfold in 394 days: more than the upper end of its bracket. -/
theorem cagr_above_bracket : ∃ b, cagrBracket 1 1000000 394 = .ok b ∧
    LowerHolds 1 1000000 394 b ∧ ¬ UpperHolds 1 1000000 394 b := by
  have hrun : cagrBracket 1 1000000 394 = .ok ⟨361721592247107963, 361721592256004617⟩ := by
    decide +kernel
  refine ⟨_, hrun, ?_, ?_⟩
  · unfold LowerHolds
    decide +kernel
  · unfold UpperHolds
    decide

end Certified

end Linvesther.Statistics
