import Linvesther.Base.Sample
import Linvesther.Zkvm.Statistics

/-! Sharpe and Sortino ratios: what the published bracket and verdict say about the exact ratio of
the returns. -/

namespace Linvesther.Statistics

open Transaction Enclosure

section Metrics

/-- The two ratios. -/
inductive Kind where
  | sharpe
  | sortino

/-- What the mean is divided by. -/
noncomputable def Kind.deviation : Kind → List ℝ → ℝ
  | .sharpe => Sample.stdev
  | .sortino => Sample.downsideDev

noncomputable def Kind.metric (kind : Kind) (xs : List ℝ) : ℝ :=
  √365 * Sample.mean xs / kind.deviation xs

def Kind.bracket : Kind → Returns → I128 → Except StatsError Bracket
  | .sharpe => sharpeBracket
  | .sortino => sortinoBracket

def Kind.claim : Kind → Returns → I128 → ClaimOperator → MetricClaim
  | .sharpe => .sharpe
  | .sortino => .sortino

theorem Kind.deviation_mul (kind : Kind) {c : ℝ} (hc : 0 ≤ c) (xs : List ℝ) :
    kind.deviation (xs.map (c * ·)) = c * kind.deviation xs := by
  rcases kind with - | -
  · exact Sample.stdev_mul hc xs
  · exact Sample.downsideDev_mul hc xs

theorem Kind.metric_mul (kind : Kind) {c : ℝ} (hc : 0 < c) (xs : List ℝ) :
    kind.metric (xs.map (c * ·)) = kind.metric xs := by
  unfold Kind.metric
  rw [kind.deviation_mul hc.le, Sample.mean_mul, mul_left_comm, mul_div_mul_left _ _ hc.ne']

theorem Kind.deviation_pos (kind : Kind) {xs : List ℝ} (h : kind.deviation xs ≠ 0) :
    0 < kind.deviation xs := by
  rcases kind with - | -
  · exact lt_of_le_of_ne (Real.sqrt_nonneg _) h.symm
  · exact lt_of_le_of_ne (Real.sqrt_nonneg _) h.symm

theorem Kind.metric_pos (kind : Kind) {xs : List ℝ} (hne : xs ≠ []) (hdev : kind.deviation xs ≠ 0)
    (h : ∀ x ∈ xs, 0 < x) : 0 < kind.metric xs :=
  div_pos (mul_pos (by positivity) (Sample.mean_pos hne h)) (kind.deviation_pos hdev)

theorem Kind.metric_neg (kind : Kind) {xs : List ℝ} (hne : xs ≠ []) (hdev : kind.deviation xs ≠ 0)
    (h : ∀ x ∈ xs, x < 0) : kind.metric xs < 0 :=
  div_neg_of_neg_of_pos (mul_neg_of_pos_of_neg (by positivity) (Sample.mean_neg hne h))
    (kind.deviation_pos hdev)

/-- The threshold is in units of `1 / SCALE`. -/
def ClaimOperator.Holds : ClaimOperator → ℝ → Prop
  | .greaterThan k, metric => (k.val : ℝ) < 10 ^ 12 * metric
  | .lessThan k, metric => 10 ^ 12 * metric < k.val

theorem evaluateClaim_sound {b : Bracket} {metric : ℝ} (h : b.Encloses (10 ^ 12 * metric))
    (operator : ClaimOperator) :
    (evaluateClaim b operator = .approved → operator.Holds metric) ∧
      (evaluateClaim b operator = .rejected → ¬ operator.Holds metric) := by
  rcases operator with k | k
  · refine ⟨fun hverdict => ?_, fun hverdict => ?_⟩
    · simp only [evaluateClaim] at hverdict
      split_ifs at hverdict with hlower
      have hlower : (k.val : ℝ) < b.lower.val := by exact_mod_cast hlower
      exact hlower.trans_le h.lower_le
    · simp only [evaluateClaim] at hverdict
      split_ifs at hverdict with hlower hupper
      have hupper : (b.upper.val : ℝ) ≤ k.val := by exact_mod_cast hupper
      exact not_lt.2 (h.le_upper.trans hupper)
  · refine ⟨fun hverdict => ?_, fun hverdict => ?_⟩
    · simp only [evaluateClaim] at hverdict
      split_ifs at hverdict with hupper
      have hupper : (b.upper.val : ℝ) < k.val := by exact_mod_cast hupper
      exact h.le_upper.trans_lt hupper
    · simp only [evaluateClaim] at hverdict
      split_ifs at hverdict with hupper hlower
      have hlower : (k.val : ℝ) ≤ b.lower.val := by exact_mod_cast hlower
      exact not_lt.2 (hlower.trans h.lower_le)

end Metrics

section Sums

/-- A loop whose body adds a number for every element adds their sum. -/
theorem foldlM_sum (step : I128 → I128 → Option I128) {f : I128 → ℤ}
    (hstep : ∀ {acc e acc'}, step acc e = some acc' → acc'.val = acc.val + f e)
    {l : List I128} {acc acc' : I128} (h : l.foldlM step acc = some acc') :
    acc'.val = acc.val + (l.map f).sum := by
  induction l generalizing acc with
  | nil =>
    simp only [List.foldlM_nil, Option.pure_def, Option.some.injEq] at h
    simp [h]
  | cons e l ih =>
    simp only [List.foldlM_cons, Option.bind_eq_bind, Option.bind_eq_some_iff] at h
    obtain ⟨acc₁, hfirst, hrest⟩ := h
    rw [ih hrest, hstep hfirst, List.map_cons, List.sum_cons, add_assoc]

theorem sumChecked_ok {values : List I128} {total : I128} (h : sumChecked values = .ok total) :
    total.val = (values.map Signed.val).sum := by
  unfold sumChecked at h
  rw [orRange_ok] at h
  rw [foldlM_sum Signed.checkedAdd (fun hadd => Signed.checkedAdd_eq_some.1 hadd) h]
  exact zero_add _

theorem addSquare_ok {n sumExcess acc e acc' : I128} (h : addSquare n sumExcess acc e = some acc') :
    acc'.val = acc.val + (n.val * e.val - sumExcess.val) ^ 2 := by
  unfold addSquare at h
  simp only [Option.bind_eq_bind, Option.bind_eq_some_iff, Signed.checkedMul_eq_some,
    Signed.checkedSub_eq_some, Signed.checkedAdd_eq_some] at h
  obtain ⟨scaled, hscaled, term, hterm, square, hsquare, h⟩ := h
  rw [h, hsquare, hterm, hscaled]
  ring

theorem addDownside_ok {acc e acc' : I128} (h : addDownside acc e = some acc') :
    acc'.val = acc.val + (min 0 e.val) ^ 2 := by
  unfold addDownside at h
  split_ifs at h with hneg
  · simp only [Option.bind_eq_bind, Option.bind_eq_some_iff, Signed.checkedMul_eq_some,
      Signed.checkedAdd_eq_some] at h
    obtain ⟨square, hsquare, h⟩ := h
    have hneg : e.val < 0 := hneg
    rw [h, hsquare, min_eq_right hneg.le]
    ring
  · simp only [Option.pure_def, Option.some.injEq] at h
    have hnonneg : 0 ≤ e.val := not_lt.1 hneg
    rw [← h, min_eq_left hnonneg]
    ring

end Sums

section Brackets

/-- The real values of numbers. -/
def reals (values : List I128) : List ℝ := values.map fun e => (e.val : ℝ)

theorem annualizationFactor_ok {annual : Bracket} (h : annualizationFactor = .ok annual) :
    annual.Encloses (10 ^ 12 * √365) ∧ 0 ≤ annual.lower.val := by
  unfold annualizationFactor at h
  rw [orRange_ok] at h
  have hdays : (DAYS_PER_YEAR.val : ℝ) / (1 : I128).val = 365 := by
    rw [show DAYS_PER_YEAR.val = 365 by decide, show (1 : I128).val = 1 by decide]
    norm_num
  have := sqrtBracketScaled_encloses h (by decide)
  rwa [hdays, cast_SCALE] at this

/-- What a bracket says about the numbers it is computed from. -/
structure Sound (b : Bracket) (kind : Kind) (xs : List ℝ) : Prop where
  ne_nil : xs ≠ []
  defined : kind.deviation xs ≠ 0
  encloses : b.Encloses (10 ^ 12 * kind.metric xs)
  nonneg : 0 ≤ xs.sum → 0 ≤ b.lower.val
  nonpos : xs.sum ≤ 0 → b.upper.val ≤ 0

/-- The last steps of both brackets: a deviation from a quotient of integers, and the ratio. -/
theorem ratio_of_deviation {annual deviation b : Bracket} {num den sumExcess n : I128}
    (hdev : sqrtBracketScaled num den 1 = some deviation)
    (hannual : annualizationFactor = .ok annual)
    (hratio : ratioBracket annual sumExcess n deviation = some b) (hn : 0 < n.val) :
    b.Encloses (10 ^ 12 * (√365 * (sumExcess.val / n.val) / √(num.val / den.val))) ∧
      (0 ≤ sumExcess.val → 0 ≤ b.lower.val) ∧ (sumExcess.val ≤ 0 → b.upper.val ≤ 0) := by
  obtain ⟨hannual, hannual0⟩ := annualizationFactor_ok hannual
  have hone : ((1 : I128).val : ℝ) = 1 := by
    rw [show (1 : I128).val = 1 by decide]
    norm_num
  obtain ⟨hdev, hdev0⟩ := sqrtBracketScaled_encloses hdev (by decide)
  rw [hone, one_mul] at hdev
  have hannualu : 0 ≤ annual.upper.val :=
    hannual0.trans (by exact_mod_cast hannual.lower_le.trans hannual.le_upper)
  have hdevu : 0 ≤ deviation.upper.val :=
    hdev0.trans (by exact_mod_cast hdev.lower_le.trans hdev.le_upper)
  refine ⟨?_, ratioBracket_sign hratio hn hannual0 hannualu hdev0 hdevu⟩
  have := ratioBracket_encloses hratio hn hannual hdev hdev0
  convert this using 1
  rw [mul_comm (n.val : ℝ), ← div_div]
  ring

theorem sum_reals (values : List I128) :
    (reals values).sum = ((values.map Signed.val).sum : ℤ) := by
  simp [reals, Int.cast_list_sum, Function.comp_def]

theorem sum_map_reals (values : List I128) (f : ℤ → ℤ) (g : ℝ → ℝ)
    (hfg : ∀ e : ℤ, g e = f e) :
    ((reals values).map g).sum = ((values.map fun e => f e.val).sum : ℤ) := by
  simp [reals, Int.cast_list_sum, Function.comp_def, hfg]

theorem length_reals (values : List I128) : (reals values).length = values.length := List.length_map _

/-- The number of returns is not too great for its type. -/
theorem val_length (returns : Returns) (base : I128) :
    (Signed.wrap 128 returns.1.length).val = (reals (excessOver returns base)).length := by
  rw [length_reals, excessOver, List.length_map]
  apply Signed.val_wrap
  have := returns.2
  unfold Fits
  omega

theorem sum_sq_nonneg (xs : List ℝ) (f : ℝ → ℝ) : 0 ≤ (xs.map fun x => f x ^ 2).sum := by
  apply List.sum_nonneg
  intro square hmem
  obtain ⟨x, -, rfl⟩ := List.mem_map.1 hmem
  exact sq_nonneg (f x)

/-- A quotient that is not zero has a root that is not zero. -/
theorem sqrt_ne_zero {num den : I128} (hnum : ¬ num = 0) (hnum0 : (0 : ℝ) ≤ num.val)
    (hden : 2 ≤ den.val) : √((num.val : ℝ) / den.val) ≠ 0 := by
  have hne : num.val ≠ 0 := fun hzero => hnum (Signed.ext hzero)
  have hpos : (0 : ℝ) < num.val := lt_of_le_of_ne hnum0 (by exact_mod_cast hne.symm)
  have hden' : (0 : ℝ) < den.val := by exact_mod_cast (by omega : 0 < den.val)
  exact (Real.sqrt_pos.2 (div_pos hpos hden')).ne'

theorem sharpeBracket_ok {returns : Returns} {rfDaily : I128} {b : Bracket}
    (h : sharpeBracket returns rfDaily = .ok b) :
    Sound b .sharpe (reals (excessOver returns rfDaily)) := by
  have hlen := val_length returns rfDaily
  have hcount : (reals (excessOver returns rfDaily)).length = returns.1.length := by
    rw [length_reals, excessOver, List.length_map]
  unfold sharpeBracket at h
  simp only [bind_ok, revertIf_ok, orRange_ok, Option.bind_eq_some_iff, exists_and_left,
    exists_const, Signed.checkedMul_eq_some] at h
  generalize excessOver returns rfDaily = excess at *
  generalize Signed.wrap 128 (returns.1.length : ℤ) = n at *
  obtain ⟨hshort, sumExcess, hsum, vNum, hvNum, hvariance, vDen, ⟨nn, hnn, hvDen⟩, stdev, hstdev,
    annual, hannual, hratio⟩ := h
  have hshort : 30 ≤ returns.1.length := not_lt.1 hshort
  have hmany : 30 ≤ n.val := by omega
  have hlen' : ((reals excess).length : ℝ) = n.val := by rw [hlen, Int.cast_natCast]
  have hsum' : (reals excess).sum = sumExcess.val := by rw [sum_reals, sumChecked_ok hsum]
  have hvNum' : ((reals excess).map fun x =>
      ((reals excess).length * x - (reals excess).sum) ^ 2).sum = (vNum.val : ℝ) := by
    rw [hlen', hsum', sum_map_reals excess (fun e => (n.val * e - sumExcess.val) ^ 2) _
      (fun e => by push_cast; rfl), foldlM_sum (addSquare n sumExcess) addSquare_ok hvNum,
      show (0 : I128).val = 0 by decide, zero_add]
  have hn1 : (n - 1).val = n.val - 1 := by
    apply Signed.val_sub
    exact Signed.fits_of_le (a := n) (show 0 ≤ n.val - 1 by omega) (show n.val - 1 ≤ n.val by omega)
  have hvDen' : vDen.val = n.val * n.val * (n.val - 1) := by rw [hvDen, hnn, hn1]
  have hden : 2 ≤ vDen.val := by
    rw [hvDen']
    nlinarith
  have hne : reals excess ≠ [] := List.length_pos_iff.1 (by omega)
  have hdeviation : Kind.sharpe.deviation (reals excess) = √((vNum.val : ℝ) / vDen.val) := by
    show Sample.stdev (reals excess) = _
    rw [Sample.stdev_eq hne, hvNum', hlen', hvDen']
    push_cast
    rfl
  obtain ⟨hencloses, hnonneg, hnonpos⟩ :=
    ratio_of_deviation hstdev hannual hratio (by omega)
  refine ⟨hne, ?_, ?_, ?_, ?_⟩
  · rw [hdeviation]
    refine sqrt_ne_zero hvariance ?_ hden
    rw [← hvNum']
    exact sum_sq_nonneg _ _
  · unfold Kind.metric Sample.mean
    rwa [hdeviation, hsum', hlen']
  · rw [hsum']
    exact fun hsign => hnonneg (by exact_mod_cast hsign)
  · rw [hsum']
    exact fun hsign => hnonpos (by exact_mod_cast hsign)

theorem sortinoBracket_ok {returns : Returns} {marDaily : I128} {b : Bracket}
    (h : sortinoBracket returns marDaily = .ok b) :
    Sound b .sortino (reals (excessOver returns marDaily)) := by
  have hlen := val_length returns marDaily
  have hcount : (reals (excessOver returns marDaily)).length = returns.1.length := by
    rw [length_reals, excessOver, List.length_map]
  unfold sortinoBracket at h
  simp only [bind_ok, revertIf_ok, orRange_ok, exists_and_left, exists_const] at h
  generalize excessOver returns marDaily = excess at *
  generalize Signed.wrap 128 (returns.1.length : ℤ) = n at *
  obtain ⟨hshort, sumExcess, hsum, downsideSqSum, hdownside, hsome, downsideDev, hdownsideDev,
    annual, hannual, hratio⟩ := h
  have hshort : 30 ≤ returns.1.length := not_lt.1 hshort
  have hmany : 2 ≤ n.val := by omega
  have hlen' : ((reals excess).length : ℝ) = n.val := by rw [hlen, Int.cast_natCast]
  have hsum' : (reals excess).sum = sumExcess.val := by rw [sum_reals, sumChecked_ok hsum]
  have hdownside' : ((reals excess).map fun x => (min 0 x) ^ 2).sum =
      (downsideSqSum.val : ℝ) := by
    rw [sum_map_reals excess (fun e => (min 0 e) ^ 2) _ (fun e => by push_cast; rfl),
      foldlM_sum addDownside addDownside_ok hdownside, show (0 : I128).val = 0 by decide, zero_add]
  have hdeviation : Kind.sortino.deviation (reals excess) =
      √((downsideSqSum.val : ℝ) / n.val) := by
    show Sample.downsideDev (reals excess) = _
    rw [Sample.downsideDev, hdownside', hlen']
  have hne : reals excess ≠ [] := List.length_pos_iff.1 (by omega)
  obtain ⟨hencloses, hnonneg, hnonpos⟩ :=
    ratio_of_deviation hdownsideDev hannual hratio (by omega)
  refine ⟨hne, ?_, ?_, ?_, ?_⟩
  · rw [hdeviation]
    refine sqrt_ne_zero hsome ?_ hmany
    rw [← hdownside']
    exact sum_sq_nonneg _ _
  · unfold Kind.metric Sample.mean
    rwa [hdeviation, hsum', hlen']
  · rw [hsum']
    exact fun hsign => hnonneg (by exact_mod_cast hsign)
  · rw [hsum']
    exact fun hsign => hnonpos (by exact_mod_cast hsign)

theorem Kind.bracket_ok {kind : Kind} {returns : Returns} {base : I128} {b : Bracket}
    (h : kind.bracket returns base = .ok b) :
    Sound b kind (reals (excessOver returns base)) := by
  rcases kind with - | -
  · exact sharpeBracket_ok h
  · exact sortinoBracket_ok h

end Brackets

section Certified

/-- The returns over the given one. -/
noncomputable def exactExcess (returns : Returns) (base : I128) : List ℝ :=
  returns.1.map fun r => ((r.val : ℝ) - base.val) / 10 ^ 12

/-- The exact ratio exists, the published bracket holds it and the verdict is right about it. -/
structure Certified (kind : Kind) (returns : Returns) (base : I128) (operator : ClaimOperator)
    (output : GuestOutput) : Prop where
  defined : kind.deviation (exactExcess returns base) ≠ 0
  encloses : Bracket.Encloses ⟨output.bracketLower, output.bracketUpper⟩
    (10 ^ 12 * kind.metric (exactExcess returns base))
  approved : output.verdict = .approved → operator.Holds (kind.metric (exactExcess returns base))
  rejected : output.verdict = .rejected → ¬ operator.Holds (kind.metric (exactExcess returns base))

theorem Kind.run_ok {kind : Kind} {returns : Returns} {base : I128} {operator : ClaimOperator}
    {output : GuestOutput} (h : run ⟨kind.claim returns base operator⟩ = .ok output) :
    ∃ b, kind.bracket returns base = .ok b ∧
      output = ⟨b.lower, b.upper, evaluateClaim b operator⟩ := by
  unfold run at h
  simp only [bind_ok, mapError_ok, pure_ok, Prod.exists] at h
  obtain ⟨b, op, hbracket, rfl⟩ := h
  rcases kind with - | -
  · simp only [Kind.claim, MetricClaim.bracket, bind_ok, pure_ok, Prod.mk.injEq] at hbracket
    obtain ⟨b', hb, rfl, rfl⟩ := hbracket
    exact ⟨b', hb, rfl⟩
  · simp only [Kind.claim, MetricClaim.bracket, bind_ok, pure_ok, Prod.mk.injEq] at hbracket
    obtain ⟨b', hb, rfl, rfl⟩ := hbracket
    exact ⟨b', hb, rfl⟩

theorem reals_excessOver {returns : Returns} {base : I128}
    (h : ∀ r ∈ returns.1, Fits 128 (r.val - base.val)) :
    reals (excessOver returns base) = (exactExcess returns base).map (10 ^ 12 * ·) := by
  unfold reals excessOver exactExcess
  rw [List.map_map, List.map_map]
  apply List.map_congr_left
  intro r hr
  show (((r - base).val : ℤ) : ℝ) = 10 ^ 12 * (((r.val : ℝ) - base.val) / 10 ^ 12)
  rw [Signed.val_sub (h r hr), mul_div_cancel₀ _ (by positivity)]
  push_cast
  rfl

theorem certified_of_sound {kind : Kind} {returns : Returns} {base : I128} {b : Bracket}
    (h : Sound b kind (reals (excessOver returns base)))
    (hfits : ∀ r ∈ returns.1, Fits 128 (r.val - base.val)) (operator : ClaimOperator) :
    Certified kind returns base operator ⟨b.lower, b.upper, evaluateClaim b operator⟩ := by
  have hscale : (0 : ℝ) < 10 ^ 12 := by positivity
  have hreals := reals_excessOver hfits
  have hdefined := h.defined
  have hencloses := h.encloses
  rw [hreals, kind.metric_mul hscale] at hencloses
  rw [hreals, kind.deviation_mul hscale.le] at hdefined
  obtain ⟨happroved, hrejected⟩ := evaluateClaim_sound hencloses operator
  exact ⟨right_ne_zero_of_mul hdefined, hencloses, happroved, hrejected⟩

/-- When every subtraction wraps around, the bracket is on the wrong side of zero. -/
theorem not_certified_of_sound {kind : Kind} {returns : Returns} {base : I128} {b : Bracket}
    (h : Sound b kind (reals (excessOver returns base)))
    (hwraps : ∀ r ∈ returns.1, ¬ Fits 128 (r.val - base.val)) (operator : ClaimOperator)
    (verdict : ClaimVerdict) :
    ¬ Certified kind returns base operator ⟨b.lower, b.upper, verdict⟩ := by
  intro hcertified
  have hne : exactExcess returns base ≠ [] := by
    have := h.ne_nil
    simpa [reals, excessOver, exactExcess] using this
  have hencloses := hcertified.encloses
  rcases le_or_gt 0 base.val with hbase | hbase
  · have hlow : ∀ r ∈ returns.1, 2 * (r.val - base.val) < -2 ^ 128 := by
      intro r hr
      have hwrap := hwraps r hr
      have := r.fits.2
      unfold Fits at hwrap
      omega
    have hlower : 0 ≤ b.lower.val := by
      apply h.nonneg
      apply List.sum_nonneg
      simp only [reals, excessOver, List.map_map, List.mem_map, forall_exists_index, and_imp,
        forall_apply_eq_imp_iff₂]
      intro r hr
      show (0 : ℝ) ≤ ((r - base).val : ℝ)
      exact_mod_cast (Signed.val_sub_of_low (hlow r hr)).le
    have hmetric : kind.metric (exactExcess returns base) < 0 := by
      apply kind.metric_neg hne hcertified.defined
      simp only [exactExcess, List.mem_map, forall_exists_index, and_imp,
        forall_apply_eq_imp_iff₂]
      intro r hr
      have : ((r.val - base.val : ℤ) : ℝ) < 0 := by
        have := hlow r hr
        exact_mod_cast (by omega : r.val - base.val < 0)
      push_cast at this
      exact div_neg_of_neg_of_pos this (by positivity)
    have hlower' : (0 : ℝ) ≤ b.lower.val := by exact_mod_cast hlower
    linarith [hencloses.lower_le]
  · have hhigh : ∀ r ∈ returns.1, 2 ^ 128 ≤ 2 * (r.val - base.val) := by
      intro r hr
      have hwrap := hwraps r hr
      have := r.fits.1
      unfold Fits at hwrap
      omega
    have hupper : b.upper.val ≤ 0 := by
      apply h.nonpos
      refine (List.sum_le_card_nsmul _ 0 ?_).trans_eq (smul_zero _)
      simp only [reals, excessOver, List.map_map, List.mem_map, forall_exists_index, and_imp,
        forall_apply_eq_imp_iff₂]
      intro r hr
      show ((r - base).val : ℝ) ≤ 0
      exact_mod_cast (Signed.val_sub_of_high (hhigh r hr)).le
    have hmetric : 0 < kind.metric (exactExcess returns base) := by
      apply kind.metric_pos hne hcertified.defined
      simp only [exactExcess, List.mem_map, forall_exists_index, and_imp,
        forall_apply_eq_imp_iff₂]
      intro r hr
      have : (0 : ℝ) < ((r.val - base.val : ℤ) : ℝ) := by
        have := hhigh r hr
        exact_mod_cast (by omega : 0 < r.val - base.val)
      push_cast at this
      exact div_pos this (by positivity)
    have hupper' : (b.upper.val : ℝ) ≤ 0 := by exact_mod_cast hupper
    linarith [hencloses.le_upper]

/-- What the guest publishes is certified if no subtraction of the base wraps around, and is not if
all of them do. -/
theorem ratio_certified {kind : Kind} {returns : Returns} {base : I128} {operator : ClaimOperator}
    {output : GuestOutput} (h : run ⟨kind.claim returns base operator⟩ = .ok output) :
    ((∀ r ∈ returns.1, Fits 128 (r.val - base.val)) →
      Certified kind returns base operator output) ∧
    ((∀ r ∈ returns.1, ¬ Fits 128 (r.val - base.val)) →
      ¬ Certified kind returns base operator output) := by
  obtain ⟨b, hb, rfl⟩ := Kind.run_ok h
  have hsound := Kind.bracket_ok hb
  exact ⟨fun hfits => certified_of_sound hsound hfits operator,
    fun hwraps => not_certified_of_sound hsound hwraps operator _⟩

end Certified

section Example

/-- Two returns by turns, for 30 days. -/
def alternating (a b : I128) : Returns := ⟨(List.replicate 15 [a, b]).flatten, by simp⟩

/-- Alternating returns of 1 and -0.5 per cent. -/
theorem ratio_certified_alternating : ∃ output,
    run ⟨Kind.sharpe.claim (alternating 10000000000 (Signed.wrap 128 (-5000000000))) 0
      (.greaterThan 0)⟩ = .ok output ∧
    Certified .sharpe (alternating 10000000000 (Signed.wrap 128 (-5000000000))) 0
      (.greaterThan 0) output := by
  have hrun : run ⟨Kind.sharpe.claim (alternating 10000000000 (Signed.wrap 128 (-5000000000))) 0
      (.greaterThan 0)⟩ = .ok ⟨6261286105982, 6261286106804, .approved⟩ := by
    decide +kernel
  exact ⟨_, hrun, (ratio_certified hrun).1 (by decide +kernel)⟩

/-- Returns next to the least number, over the greatest: the excess wraps around to 10 and 12. -/
def lowest : Returns :=
  alternating (Signed.wrap 128 (-2 ^ 127 + 9)) (Signed.wrap 128 (-2 ^ 127 + 11))

/-- A positive ratio is approved where the exact one is not positive. -/
theorem lowest_approved : ∃ output,
    run ⟨.sharpe lowest MAX (.greaterThan 0)⟩ = .ok output ∧ output.verdict = .approved ∧
    ¬ ClaimOperator.Holds (.greaterThan 0) (Kind.sharpe.metric (exactExcess lowest MAX)) ∧
    ¬ Certified .sharpe lowest MAX (.greaterThan 0) output := by
  have hrun : run ⟨.sharpe lowest MAX (.greaterThan 0)⟩ =
      .ok ⟨105077352459981, 210154704919973, .approved⟩ := by
    decide +kernel
  have hneg : ∀ x ∈ exactExcess lowest MAX, x < 0 := by
    have hval : ∀ r ∈ lowest.1, r.val < MAX.val := by decide +kernel
    intro x hx
    obtain ⟨r, hr, rfl⟩ := List.mem_map.1 hx
    have hlt : (r.val : ℝ) < MAX.val := by exact_mod_cast hval r hr
    exact div_neg_of_neg_of_pos (sub_neg.2 hlt) (by positivity)
  have hne : exactExcess lowest MAX ≠ [] := by
    simp [exactExcess, lowest, alternating]
  have hmetric : Kind.sharpe.metric (exactExcess lowest MAX) ≤ 0 :=
    div_nonpos_of_nonpos_of_nonneg
      (mul_nonpos_of_nonneg_of_nonpos (by positivity) (Sample.mean_neg hne hneg).le)
      (Real.sqrt_nonneg _)
  have hfalse : ¬ ClaimOperator.Holds (.greaterThan 0)
      (Kind.sharpe.metric (exactExcess lowest MAX)) := by
    have hzero : ((0 : I128).val : ℝ) = 0 := by
      rw [show (0 : I128).val = 0 by decide, Int.cast_zero]
    unfold ClaimOperator.Holds
    simp only [hzero]
    linarith
  exact ⟨_, hrun, rfl, hfalse, fun hcertified => hfalse (hcertified.approved rfl)⟩

end Example

end Linvesther.Statistics
