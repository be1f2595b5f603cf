import Linvesther.Base.FloorChain
import Linvesther.Domain.Drawdown
import Linvesther.Zkvm.Performance

/-! What the performance guest computes, against the numbers that it stands for. -/

namespace Linvesther.Performance

open Transaction

section Numbers

/-- The series as numbers. -/
def values (nav : List (Signed 64)) : List ℤ := nav.map Signed.val

theorem val_wide (v : Signed 64) : (v.cast 128).val = v.val := Signed.val_cast (by norm_num) v

theorem val_scale : (SCALE.cast 128).val = 1000000 := by decide

theorem fits_128 {x : ℤ} (h : 0 ≤ x) (hx : x ≤ 10 ^ 12 * 2 ^ 63) : Fits 128 x := by
  unfold Fits
  constructor
  · norm_num
    omega
  · norm_num at hx ⊢
    omega

end Numbers

section Twr

/-- Every product of the loop of `twr_index` fits. -/
def TwrFits (index : Signed 128) : List (Signed 64) → Prop
  | prev :: cur :: rest =>
    Fits 128 ((cur.cast 128).val * (SCALE.cast 128).val) ∧
      Fits 128 (index.val * (cur.cast 128 * SCALE.cast 128 / prev.cast 128).val) ∧
      TwrFits (index * (cur.cast 128 * SCALE.cast 128 / prev.cast 128) / SCALE.cast 128) (cur :: rest)
  | _ => True

/-- One step of the loop: its products fit, so the next index is the one of exact integers. -/
theorem twr_step {index : Signed 128} {prev cur : Signed 64} (hprev : 0 < prev.val) (hcur : 0 < cur.val)
    (hindex : 0 ≤ index.val) (hle : index.val ≤ 1000000 * prev.val) :
    Fits 128 ((cur.cast 128).val * (SCALE.cast 128).val) ∧
      Fits 128 (index.val * (cur.cast 128 * SCALE.cast 128 / prev.cast 128).val) ∧
      (index * (cur.cast 128 * SCALE.cast 128 / prev.cast 128) / SCALE.cast 128).val =
        FloorChain.step 1000000 index.val prev.val cur.val := by
  have hbound : 2 * cur.val < 2 ^ 64 := cur.fits.2
  have hscaled : Fits 128 ((cur.cast 128).val * (SCALE.cast 128).val) := by
    rw [val_wide, val_scale]
    exact fits_128 (by positivity) (by omega)
  have hratio : (cur.cast 128 * SCALE.cast 128 / prev.cast 128).val = cur.val * 1000000 / prev.val := by
    have hmul := Signed.val_mul hscaled
    rw [val_wide, val_scale] at hmul
    rw [Signed.val_div (by rw [hmul]; positivity) (by rwa [val_wide]), hmul, val_wide]
  have hquotient : 0 ≤ cur.val * 1000000 / prev.val := Int.ediv_nonneg (by positivity) hprev.le
  have hproduct : Fits 128 (index.val * (cur.val * 1000000 / prev.val)) := by
    refine fits_128 (mul_nonneg hindex hquotient) ?_
    calc index.val * (cur.val * 1000000 / prev.val)
        ≤ 1000000 * prev.val * (cur.val * 1000000 / prev.val) := mul_le_mul_of_nonneg_right hle hquotient
      _ = 1000000 * (cur.val * 1000000 / prev.val * prev.val) := by ring
      _ ≤ 1000000 * (cur.val * 1000000) := by
          have := Int.ediv_mul_le (cur.val * 1000000) hprev.ne'
          omega
      _ ≤ 10 ^ 12 * 2 ^ 63 := by omega
  refine ⟨hscaled, hratio ▸ hproduct, ?_⟩
  have hmul := Signed.val_mul (a := index) (hratio ▸ hproduct)
  rw [hratio] at hmul
  rw [Signed.val_div (by rw [hmul]; exact mul_nonneg hindex hquotient) (by rw [val_scale]; norm_num), hmul,
    val_scale]
  rfl

/-- The loop computes the chain of exact integers, without an overflow. -/
theorem chainIndex_eq_chain {prev : Signed 64} {rest : List (Signed 64)} {index : Signed 128}
    (hpos : ∀ v ∈ prev :: rest, 0 < v) (hindex : 0 ≤ index.val) (hle : index.val ≤ 1000000 * prev.val) (i : ℕ) :
    TwrFits index (prev :: rest) ∧ ∃ result, chainIndex i index (prev :: rest) = .ok result ∧
      result.val = FloorChain.chain 1000000 index.val (values (prev :: rest)) := by
  induction rest generalizing prev index i with
  | nil => exact ⟨trivial, index, rfl, rfl⟩
  | cons cur rest ih =>
    have hprev : 0 < prev.val := hpos prev List.mem_cons_self
    have hcur : 0 < cur.val := hpos cur (List.mem_cons_of_mem _ List.mem_cons_self)
    obtain ⟨hscaled, hproduct, hnext⟩ := twr_step hprev hcur hindex hle
    have hnonneg : 0 ≤ FloorChain.step 1000000 index.val prev.val cur.val :=
      FloorChain.step_nonneg (by norm_num) hindex hprev hcur
    have hstep : FloorChain.step 1000000 index.val prev.val cur.val ≤ 1000000 * cur.val := by
      have hexact : (FloorChain.step 1000000 index.val prev.val cur.val : ℚ) ≤ index.val * (cur.val / prev.val) :=
        FloorChain.step_le (by norm_num) hindex hprev
      have hprev' : (0 : ℚ) < prev.val := by exact_mod_cast hprev
      have hcur' : (0 : ℚ) < cur.val := by exact_mod_cast hcur
      have hgrown : (index.val : ℚ) * (cur.val / prev.val) ≤ 1000000 * cur.val := by
        calc (index.val : ℚ) * (cur.val / prev.val) ≤ 1000000 * prev.val * (cur.val / prev.val) := by
              gcongr
              exact_mod_cast hle
          _ = 1000000 * cur.val := by field_simp
      exact_mod_cast hexact.trans hgrown
    obtain ⟨hfits, result, hresult, hval⟩ := ih (fun v hv => hpos v (List.mem_cons_of_mem _ hv))
      (hnext ▸ hnonneg) (hnext ▸ hstep) (i + 1)
    refine ⟨⟨hscaled, hproduct, hfits⟩, result, ?_, ?_⟩
    · unfold chainIndex
      have hnot : ¬ prev ≤ 0 := Signed.not_le.2 (hpos prev List.mem_cons_self)
      rw [revertIf, if_neg hnot]
      exact hresult
    · rw [hval, hnext]
      rfl

/-- The sum over the steps of a series of what rounding can cost in each. -/
def roundingLoss (first : ℚ) (nav : List (Signed 64)) : ℚ :=
  ((nav.zip nav.tail).map fun w => ((w.1.val : ℚ) / first + 1) / w.2.val).sum

theorem roundingLoss_eq (first : Signed 64) (nav : List (Signed 64)) :
    roundingLoss first.val nav = FloorChain.loss first.val (values nav) := by
  rw [FloorChain.loss_eq_sum, roundingLoss, values, ← List.map_tail, List.zip_map, List.map_map]
  rfl

/-- `twr_index` computes the chain of exact integers, without an overflow. -/
theorem twrIndex_eq_chain {first : Signed 64} {rest : List (Signed 64)} (hpos : ∀ v ∈ first :: rest, 0 < v) :
    TwrFits (SCALE.cast 128) (first :: rest) ∧ ∃ result, twrIndex (first :: rest) = .ok result ∧
      result.val = FloorChain.chain 1000000 1000000 (values (first :: rest)) := by
  have hfirst : 0 < first.val := hpos first List.mem_cons_self
  have hle : (SCALE.cast 128).val ≤ 1000000 * first.val := by
    rw [val_scale]
    omega
  obtain ⟨hfits, result, hresult, hval⟩ := chainIndex_eq_chain hpos (by rw [val_scale]; norm_num) hle 0
  refine ⟨hfits, result, ?_, by rwa [val_scale] at hval⟩
  rw [twrIndex, revertIf, if_neg (List.cons_ne_nil _ _)]
  exact hresult

theorem values_pos {nav : List (Signed 64)} (hpos : ∀ v ∈ nav, 0 < v) : ∀ x ∈ values nav, 0 < x := by
  intro x hx
  obtain ⟨v, hv, rfl⟩ := List.mem_map.1 hx
  exact hpos v hv

/-- The index of a series of positive values is computed without an overflow. It is not above the growth of the
series, and what it falls short of it is bounded by the losses of the steps. -/
theorem twr_index_bounds (nav : List (Signed 64)) (hne : nav ≠ []) (hpos : ∀ v ∈ nav, 0 < v) :
    TwrFits (SCALE.cast 128) nav ∧ ∃ result, twrIndex nav = .ok result ∧
      (result.val : ℚ) ≤ SCALE.val * ((nav.getLast hne).val / (nav.head hne).val) ∧
      SCALE.val * ((nav.getLast hne).val / (nav.head hne).val : ℚ) - result.val ≤
        (nav.getLast hne).val * roundingLoss (nav.head hne).val nav := by
  obtain ⟨first, rest, rfl⟩ := List.exists_cons_of_ne_nil hne
  obtain ⟨hfits, result, hresult, hval⟩ := twrIndex_eq_chain hpos
  obtain ⟨hupper, hlower⟩ := FloorChain.chain_scale_bounds (show (0 : ℤ) < 1000000 by norm_num)
    (show ∀ v ∈ first.val :: values rest, 0 < v from values_pos hpos)
  have hlast : (first.val :: values rest).getLast (by simp) = ((first :: rest).getLast hne).val := by
    show ((first :: rest).map Signed.val).getLast (by simp) = _
    rw [List.getLast_map]
  have hscale : (SCALE.val : ℚ) = 1000000 := by
    have : SCALE.val = 1000000 := by decide
    rw [this]
    norm_num
  have hchain : FloorChain.chain 1000000 1000000 (first.val :: values rest) = result.val := hval.symm
  rw [hlast, hchain] at hupper hlower
  refine ⟨hfits, result, hresult, ?_, ?_⟩
  · rw [hscale]
    exact_mod_cast hupper
  · rw [hscale, List.head_cons, roundingLoss_eq]
    exact_mod_cast hlower

/-- A fall to a third and a rise to two thirds. -/
theorem twr_index_bounds_example :
    TwrFits (SCALE.cast 128) [3, 1, 2] ∧ ∃ result, twrIndex [3, 1, 2] = .ok result ∧
      (result.val : ℚ) ≤ SCALE.val * ((2 : Signed 64).val / (3 : Signed 64).val) ∧
      SCALE.val * ((2 : Signed 64).val / (3 : Signed 64).val : ℚ) - result.val ≤
        (2 : Signed 64).val * roundingLoss (3 : Signed 64).val [3, 1, 2] :=
  twr_index_bounds [3, 1, 2] (by decide) (by decide)

end Twr

section Reconcile

/-- The deltas sum to what the series gained, as numbers. -/
def ExactlyReconciled (nav ledgerDeltas : List (Signed 64)) : Prop :=
  ∃ first last, nav.head? = some first ∧ nav.getLast? = some last ∧
    (values ledgerDeltas).sum = last.val - first.val

/-- What the ledger is off by is not a number of full turns of the 64 bits. -/
def NoFullTurns (nav ledgerDeltas : List (Signed 64)) : Prop :=
  ∀ first last k, nav.head? = some first → nav.getLast? = some last →
    (values ledgerDeltas).sum = last.val - first.val + k * 2 ^ 64 → k = 0

theorem reconciled_iff (nav ledgerDeltas : List (Signed 64)) :
    Reconciled nav ledgerDeltas ↔ ∃ first last k, nav.head? = some first ∧ nav.getLast? = some last ∧
      (values ledgerDeltas).sum = last.val - first.val + k * 2 ^ 64 := by
  have hturns : ∀ first last : Signed 64, last - first = Signed.sum ledgerDeltas ↔
      ∃ k : ℤ, (values ledgerDeltas).sum = last.val - first.val + k * 2 ^ 64 := by
    intro first last
    rw [Signed.sum_eq_wrap]
    exact eq_comm.trans Signed.wrap_eq_wrap_iff
  simp only [Reconciled, hturns]
  constructor
  · rintro ⟨first, last, hfirst, hlast, k, hk⟩
    exact ⟨first, last, k, hfirst, hlast, hk⟩
  · rintro ⟨first, last, k, hfirst, hlast, hk⟩
    exact ⟨first, last, hfirst, hlast, k, hk⟩

/-- Sums and differences wrap around, so the ledger is accepted if it is off by full turns too. -/
theorem reconcile_exact_iff (nav ledgerDeltas : List (Signed 64)) :
    (reconcile nav ledgerDeltas = .ok () ↔ ExactlyReconciled nav ledgerDeltas) ↔
      NoFullTurns nav ledgerDeltas := by
  rw [reconcile_ok, reconciled_iff]
  constructor
  · intro hexact first last k hfirst hlast hk
    obtain ⟨first', last', hfirst', hlast', hsum⟩ := hexact.1 ⟨first, last, k, hfirst, hlast, hk⟩
    rw [hfirst, Option.some.injEq] at hfirst'
    rw [hlast, Option.some.injEq] at hlast'
    subst hfirst' hlast'
    omega
  · intro hturns
    constructor
    · rintro ⟨first, last, k, hfirst, hlast, hk⟩
      have hzero := hturns first last k hfirst hlast hk
      exact ⟨first, last, hfirst, hlast, by rw [hk, hzero]; omega⟩
    · rintro ⟨first, last, hfirst, hlast, hsum⟩
      exact ⟨first, last, 0, hfirst, hlast, by omega⟩

def largest : Signed 64 := ⟨2 ^ 63 - 1, by decide⟩

/-- Two deltas of nearly half a turn each explain a series that gained nothing. -/
theorem full_turn_reconciled :
    reconcile [1, 1] [largest, largest, 2] = .ok () ∧ (values [largest, largest, 2]).sum = 2 ^ 64 ∧
      ¬ ExactlyReconciled [1, 1] [largest, largest, 2] := by
  refine ⟨by decide, by decide, fun h => ?_⟩
  obtain ⟨first, last, hfirst, hlast, hsum⟩ := h
  cases hfirst
  cases hlast
  exact absurd hsum (by decide)

end Reconcile

section Drawdown

/-- Every difference and product of `max_drawdown_bp` fits, and so does the result. -/
def DrawdownFits (peak maxDdScaled : Signed 128) : List (Signed 64) → Prop
  | value :: rest =>
    if value.cast 128 > peak then DrawdownFits (value.cast 128) maxDdScaled rest
    else
      Fits 128 (peak.val - (value.cast 128).val) ∧
        Fits 128 ((peak - value.cast 128).val * (SCALE.cast 128).val) ∧
        DrawdownFits peak
          (if (peak - value.cast 128) * SCALE.cast 128 / peak > maxDdScaled then
            (peak - value.cast 128) * SCALE.cast 128 / peak else maxDdScaled) rest
  | [] => Fits 128 (maxDdScaled.val * 10000) ∧ Fits 64 (maxDdScaled * 10000 / SCALE.cast 128).val

theorem floor_div (a : ℤ) {b : ℤ} (hb : 0 < b) : ⌊(a : ℚ) / b⌋ = a / b :=
  Int.floor_eq_iff.2 ⟨FloorChain.ediv_le a hb, FloorChain.lt_ediv_add_one a hb⟩

/-- One fall from the peak, in exact integers. -/
theorem drawdown_step {peak : Signed 128} {value : Signed 64} (hpeak : 0 < peak.val) (hvalue : 0 < value.val)
    (hbound : peak.val < 2 ^ 63) (hle : value.val ≤ peak.val) :
    Fits 128 (peak.val - (value.cast 128).val) ∧
      Fits 128 ((peak - value.cast 128).val * (SCALE.cast 128).val) ∧
      ((peak - value.cast 128) * SCALE.cast 128 / peak).val = ⌊1000000 * (1 - value.val / peak.val : ℚ)⌋ := by
  have hdiff : Fits 128 (peak.val - (value.cast 128).val) := by
    rw [val_wide]
    exact fits_128 (by omega) (by omega)
  have hsub := Signed.val_sub hdiff
  rw [val_wide] at hsub
  have hscaled : Fits 128 ((peak - value.cast 128).val * (SCALE.cast 128).val) := by
    rw [hsub, val_scale]
    exact fits_128 (by nlinarith) (by omega)
  refine ⟨hdiff, hscaled, ?_⟩
  have hmul := Signed.val_mul hscaled
  rw [hsub, val_scale] at hmul
  have hexact : (1000000 * (1 - value.val / peak.val) : ℚ) =
      (((peak.val - value.val) * 1000000 : ℤ) : ℚ) / peak.val := by
    have hpeak' : (peak.val : ℚ) ≠ 0 := by exact_mod_cast hpeak.ne'
    push_cast
    field_simp
  rw [Signed.val_div (by rw [hmul]; nlinarith) hpeak, hmul, hexact, floor_div _ hpeak]

/-- What the guest keeps is what the other loop keeps, rounded down. -/
structure Mirrors (peak maxDdScaled : Signed 128) (s : Domain.DrawdownState) : Prop where
  samePeak : s.runningPeak.index = peak.val
  positive : 0 < peak.val
  bounded : peak.val < 2 ^ 63
  best : ∃ episode, s.best = some episode ∧ maxDdScaled.val = ⌊1000000 * episode.magnitude⌋ ∧
    0 ≤ episode.magnitude ∧ episode.magnitude < 1

/-- Rounding down commutes with taking the larger one. -/
theorem Mirrors.step {peak maxDdScaled : Signed 128} {s : Domain.DrawdownState} {value : Signed 64}
    {point : Domain.IndexPoint} (h : Mirrors peak maxDdScaled s) (hvalue : 0 < value.val)
    (hpoint : point.index = value.val) :
    (value.cast 128 > peak → Mirrors (value.cast 128) maxDdScaled (Domain.drawdownStep s point)) ∧
      (¬ value.cast 128 > peak → Mirrors peak
        (if (peak - value.cast 128) * SCALE.cast 128 / peak > maxDdScaled then
          (peak - value.cast 128) * SCALE.cast 128 / peak else maxDdScaled) (Domain.drawdownStep s point)) := by
  obtain ⟨episode, hbest, hscaled, hnonneg, hlt⟩ := h.best
  have hbound : 2 * value.val < 2 ^ 64 := value.fits.2
  constructor
  · intro hhigher
    have hhigher' : peak.val < value.val := by
      have : peak.val < (value.cast 128).val := hhigher
      rwa [val_wide] at this
    have hup : point.index > s.runningPeak.index := by
      rw [h.samePeak, hpoint]
      exact_mod_cast hhigher'
    have hpos : ¬ point.index ≤ 0 := by
      rw [hpoint, not_le]
      exact_mod_cast hvalue
    have hzero : ¬ 1 - point.index / point.index > episode.magnitude := by
      rw [div_self (not_le.1 hpos).ne', sub_self]
      exact not_lt.2 hnonneg
    unfold Domain.drawdownStep
    simp only [if_pos hup, if_neg hpos, hbest, if_neg hzero]
    exact ⟨by rw [hpoint, val_wide], by rwa [val_wide], by rw [val_wide]; omega,
      episode, rfl, hscaled, hnonneg, hlt⟩
  · intro hnot
    have hle : value.val ≤ peak.val := by
      have : ¬ peak.val < (value.cast 128).val := hnot
      rw [val_wide] at this
      omega
    have hkeep : ¬ point.index > s.runningPeak.index := by
      rw [h.samePeak, hpoint, gt_iff_lt, not_lt]
      exact_mod_cast hle
    have hpeak' : (0 : ℚ) < peak.val := by exact_mod_cast h.positive
    have hpos : ¬ s.runningPeak.index ≤ 0 := by
      rw [h.samePeak, not_le]
      exact hpeak'
    obtain ⟨-, -, hfall⟩ := drawdown_step h.positive hvalue h.bounded hle
    have hmagnitude : 0 ≤ 1 - (value.val / peak.val : ℚ) ∧ 1 - (value.val / peak.val : ℚ) < 1 := by
      have hle' : (value.val : ℚ) / peak.val ≤ 1 := (div_le_one hpeak').2 (by exact_mod_cast hle)
      have hpositive : (0 : ℚ) < value.val / peak.val := div_pos (by exact_mod_cast hvalue) hpeak'
      exact ⟨by linarith, by linarith⟩
    unfold Domain.drawdownStep
    simp only [if_neg hkeep, if_neg hpos, hbest]
    rw [h.samePeak, hpoint]
    refine ⟨h.samePeak, h.positive, h.bounded, ?_⟩
    by_cases hdeeper : 1 - (value.val / peak.val : ℚ) > episode.magnitude
    · refine ⟨_, if_pos hdeeper, ?_, hmagnitude⟩
      dsimp only
      rw [← hfall]
      have hmono : ⌊1000000 * episode.magnitude⌋ ≤ ⌊1000000 * (1 - value.val / peak.val : ℚ)⌋ :=
        Int.floor_le_floor (by linarith)
      rw [← hfall, ← hscaled] at hmono
      split_ifs with hgt
      · rfl
      · exact le_antisymm hmono (not_lt.1 hgt)
    · refine ⟨episode, if_neg hdeeper, ?_, hnonneg, hlt⟩
      have hmono : ⌊1000000 * (1 - value.val / peak.val : ℚ)⌋ ≤ ⌊1000000 * episode.magnitude⌋ :=
        Int.floor_le_floor (by linarith)
      rw [← hfall, ← hscaled] at hmono
      rw [if_neg (show ¬ _ > maxDdScaled from not_lt.2 hmono), hscaled]

/-- A fall of less than everything fits in the end. -/
theorem Mirrors.fits_nil {peak maxDdScaled : Signed 128} {s : Domain.DrawdownState}
    (h : Mirrors peak maxDdScaled s) :
    Fits 128 (maxDdScaled.val * 10000) ∧
      (maxDdScaled * 10000 / SCALE.cast 128).val = maxDdScaled.val / 100 ∧
      0 ≤ maxDdScaled.val ∧ maxDdScaled.val < 1000000 := by
  obtain ⟨episode, -, hscaled, hnonneg, hlt⟩ := h.best
  have hlower : 0 ≤ maxDdScaled.val := by
    rw [hscaled]
    exact Int.floor_nonneg.2 (by positivity)
  have hupper : maxDdScaled.val < 1000000 := by
    rw [hscaled]
    exact Int.floor_lt.2 (by push_cast; linarith)
  have hfits : Fits 128 (maxDdScaled.val * 10000) := fits_128 (by omega) (by omega)
  have hmul : (maxDdScaled * 10000).val = maxDdScaled.val * 10000 := Signed.val_mul hfits
  refine ⟨hfits, ?_, hlower, hupper⟩
  rw [Signed.val_div (by rw [hmul]; omega) (by rw [val_scale]; norm_num), hmul, val_scale]
  omega

/-- The two loops in step. -/
theorem maxDrawdown_mirrors {nav : List (Signed 64)} {points : List Domain.IndexPoint}
    {peak maxDdScaled : Signed 128} {s : Domain.DrawdownState}
    (hpoints : points.map Domain.IndexPoint.index = nav.map fun v => (v.val : ℚ)) (hpos : ∀ v ∈ nav, 0 < v)
    (h : Mirrors peak maxDdScaled s) (i : ℕ) :
    DrawdownFits peak maxDdScaled nav ∧ ∃ peak' result, maxDrawdown i peak maxDdScaled nav = .ok result ∧
      Mirrors peak' result (points.foldl Domain.drawdownStep s) := by
  induction nav generalizing points peak maxDdScaled s i with
  | nil =>
    obtain rfl : points = [] := by simpa using hpoints
    obtain ⟨hfits, hval, hlower, hupper⟩ := h.fits_nil
    refine ⟨⟨hfits, ?_⟩, peak, maxDdScaled, rfl, h⟩
    rw [hval]
    unfold Fits
    omega
  | cons value rest ih =>
    obtain ⟨point, points, rfl, hpoint, hrest⟩ := List.map_eq_cons_iff.1 hpoints
    have hvalue : 0 < value.val := hpos value List.mem_cons_self
    have hnot : ¬ value ≤ 0 := Signed.not_le.2 (hpos value List.mem_cons_self)
    have hpos' : ∀ v ∈ rest, 0 < v := fun v hv => hpos v (List.mem_cons_of_mem _ hv)
    have hstep := h.step hvalue hpoint
    unfold maxDrawdown DrawdownFits
    rw [revertIf, if_neg hnot, List.foldl_cons]
    by_cases hhigher : value.cast 128 > peak
    · obtain ⟨hfits, peak', result, hresult, hmirrors⟩ := ih hrest hpos' (hstep.1 hhigher) (i + 1)
      refine ⟨by rwa [if_pos hhigher], peak', result, ?_, hmirrors⟩
      show (if value.cast 128 > peak then _ else _) = _
      rw [if_pos hhigher, hresult]
    · obtain ⟨hfits, peak', result, hresult, hmirrors⟩ := ih hrest hpos' (hstep.2 hhigher) (i + 1)
      have hle : value.val ≤ peak.val := by
        have : ¬ peak.val < (value.cast 128).val := hhigher
        rw [val_wide] at this
        omega
      obtain ⟨hdiff, hscaled, -⟩ := drawdown_step h.positive hvalue h.bounded hle
      refine ⟨by rw [if_neg hhigher]; exact ⟨hdiff, hscaled, hfits⟩, peak', result, ?_, hmirrors⟩
      show (if value.cast 128 > peak then _ else _) = _
      rw [if_neg hhigher, ← hresult]

/-- The first value is its own peak, and the loops start there. -/
theorem mirrors_first {first : Signed 64} {point : Domain.IndexPoint} (hfirst : 0 < first.val)
    (hpoint : point.index = first.val) :
    Mirrors (first.cast 128) 0 ⟨point, some (Domain.episodeOf point point)⟩ := by
  have hpos : (0 : ℚ) < first.val := by exact_mod_cast hfirst
  have hbound : 2 * first.val < 2 ^ 64 := first.fits.2
  have hzero : (0 : Signed 128).val = 0 := by decide
  have hmagnitude : (Domain.episodeOf point point).magnitude = 0 := by
    show 1 - point.index / point.index = 0
    rw [hpoint, div_self hpos.ne', sub_self]
  refine ⟨by rw [hpoint, val_wide], by rwa [val_wide], by rw [val_wide]; omega, _, rfl, ?_, ?_, ?_⟩
  · rw [hmagnitude, hzero, mul_zero, Int.floor_zero]
  · exact hmagnitude.ge
  · rw [hmagnitude]
    exact one_pos

/-- Rounding to a millionth and then to a ten-thousandth is rounding to a ten-thousandth. -/
theorem floor_div_hundred (x : ℚ) : ⌊1000000 * x⌋ / 100 = ⌊10000 * x⌋ := by
  refine eq_of_forall_le_iff fun z => ?_
  rw [Int.le_ediv_iff_mul_le (by norm_num), Int.le_floor, Int.le_floor]
  push_cast
  constructor
  · intro h
    linarith
  · intro h
    linarith

/-- The falls from one value of a series to a later one, in parts of the first. -/
def falls (nav : List (Signed 64)) : Set ℚ :=
  {d | ∃ (i j : ℕ) (a b : Signed 64), i ≤ j ∧ nav[i]? = some a ∧ nav[j]? = some b ∧
    d = (a.val - b.val : ℚ) / a.val}

/-- The result of the guest is the magnitude that the other loop finds for the same series, rounded down. -/
theorem maxDrawdownBp_eq {first : Signed 64} {rest : List (Signed 64)} {points : List Domain.IndexPoint}
    (hpoints : points.map Domain.IndexPoint.index = (first :: rest).map fun v => (v.val : ℚ))
    (hpos : ∀ v ∈ first :: rest, 0 < v) :
    DrawdownFits (first.cast 128) 0 (first :: rest) ∧ ∃ bp episode, maxDrawdownBp (first :: rest) = .ok bp ∧
      Domain.maxDrawdown points = some episode ∧ bp.val = ⌊10000 * episode.magnitude⌋ ∧
      0 ≤ bp.val ∧ bp.val < 10000 := by
  obtain ⟨point, points, rfl, hpoint, -⟩ := List.map_eq_cons_iff.1 hpoints
  have hfirst : 0 < first.val := hpos first List.mem_cons_self
  obtain ⟨hfits, peak', result, hresult, hmirrors⟩ :=
    maxDrawdown_mirrors hpoints hpos (mirrors_first hfirst hpoint) 0
  obtain ⟨episode, hbest, hscaled, -, -⟩ := hmirrors.best
  obtain ⟨-, hval, hlower, hupper⟩ := hmirrors.fits_nil
  have hpositive : ¬ point.index ≤ 0 := by
    have hfirst' : (0 : ℚ) < first.val := by exact_mod_cast hfirst
    rw [hpoint, not_le]
    exact hfirst'
  -- the first step of the other loop sets the episode of its first point
  have hstart : Domain.maxDrawdown (point :: points) = some episode := by
    have hstep : Domain.drawdownStep ⟨point, some (Domain.episodeOf point point)⟩ point =
        Domain.drawdownStep ⟨point, none⟩ point := by
      unfold Domain.drawdownStep Domain.episodeOf
      simp only [gt_iff_lt, lt_irrefl, if_false, if_neg hpositive]
    rw [← hbest, List.foldl_cons, hstep]
    rfl
  have hbp : ((result * 10000 / SCALE.cast 128).cast 64).val = ⌊10000 * episode.magnitude⌋ := by
    rw [← floor_div_hundred, ← hscaled, ← hval]
    refine Signed.val_wrap ?_
    rw [hval]
    unfold Fits
    omega
  have hends : ends (first :: rest) = .ok (first, (first :: rest).getLast (by simp)) :=
    (ends_ok _ _).2 ⟨rfl, List.getLast?_eq_some_getLast _⟩
  refine ⟨hfits, _, episode, ?_, hstart, hbp, ?_, ?_⟩
  · unfold maxDrawdownBp
    have hnot : ¬ first ≤ 0 := Signed.not_le.2 (hpos first List.mem_cons_self)
    rw [hends]
    show (revertIf (first ≤ 0) _ >>= fun _ => _) = _
    rw [revertIf, if_neg hnot]
    show (maxDrawdown 0 (first.cast 128) 0 (first :: rest) >>= fun _ => _) = _
    rw [hresult]
    rfl
  · rw [hbp, ← floor_div_hundred, ← hscaled]
    omega
  · rw [hbp, ← floor_div_hundred, ← hscaled]
    omega

theorem fall_value {a b : Signed 64} (ha : 0 < a) : (a.val - b.val : ℚ) / a.val = 1 - b.val / a.val := by
  have hne : (a.val : ℚ) ≠ 0 := by exact_mod_cast (show 0 < a.val from ha).ne'
  exact (one_sub_div hne).symm

/-- The result is the greatest fall of the series, rounded down. -/
theorem maxDrawdownBp_greatest {first : Signed 64} {rest : List (Signed 64)} (hpos : ∀ v ∈ first :: rest, 0 < v) :
    DrawdownFits (first.cast 128) 0 (first :: rest) ∧ ∃ bp worst, maxDrawdownBp (first :: rest) = .ok bp ∧
      IsGreatest (falls (first :: rest)) worst ∧ bp.val = ⌊10000 * worst⌋ ∧ 0 ≤ bp.val ∧ bp.val < 10000 := by
  set series : List Domain.IndexPoint := (first :: rest).map fun v => ⟨0, v.val⟩ with hseries
  have hmap : series.map Domain.IndexPoint.index = (first :: rest).map fun v => (v.val : ℚ) := by
    rw [hseries, List.map_map]
    rfl
  have hget : ∀ {k : ℕ} {p : Domain.IndexPoint}, series[k]? = some p ↔
      ∃ v : Signed 64, (first :: rest)[k]? = some v ∧ p = ⟨0, v.val⟩ := by
    intro k p
    rw [hseries, List.getElem?_map, Option.map_eq_some_iff]
    exact exists_congr fun v => and_congr_right fun _ => eq_comm
  have hseriesPos : ∀ p ∈ series, 0 < p.index := by
    intro p hp
    obtain ⟨v, hv, rfl⟩ := List.mem_map.1 hp
    have hv' : (0 : ℚ) < v.val := by exact_mod_cast (show 0 < v.val from hpos v hv)
    exact hv'
  obtain ⟨hfits, bp, episode, hbp, hepisode, hval, hlower, hupper⟩ := maxDrawdownBp_eq hmap hpos
  obtain ⟨i, j, p, q, hworst, hresult⟩ := Domain.maxDrawdown_worst (by simp [hseries]) hseriesPos
  rw [hepisode, Option.some.injEq] at hresult
  obtain ⟨a, ha, rfl⟩ := hget.1 hworst.peak
  obtain ⟨b, hb, rfl⟩ := hget.1 hworst.trough
  refine ⟨hfits, bp, episode.magnitude, hbp, ⟨?_, ?_⟩, hval, hlower, hupper⟩
  · exact ⟨i, j, a, b, hworst.ordered, ha, hb, by rw [fall_value (hpos a (List.mem_of_getElem? ha)), hresult]; rfl⟩
  · rintro d ⟨i', j', a', b', hij, ha', hb', rfl⟩
    rw [fall_value (hpos a' (List.mem_of_getElem? ha')), hresult]
    have hj' : j' < series.length := by
      obtain ⟨hlt, -⟩ := List.getElem?_eq_some_iff.1 hb'
      simpa [hseries] using hlt
    exact hworst.deepest i' j' _ _ hij hj' (hget.2 ⟨a', ha', rfl⟩) (hget.2 ⟨b', hb', rfl⟩)

/-- The guest publishes the greatest fall of the series, rounded down to basis points, and so does the other
implementation. Nothing overflows. -/
theorem max_drawdown_bp_agrees (nav : List (Signed 64)) (hne : nav ≠ []) (hpos : ∀ v ∈ nav, 0 < v) :
    DrawdownFits ((nav.head hne).cast 128) 0 nav ∧ ∃ bp worst, maxDrawdownBp nav = .ok bp ∧
      IsGreatest (falls nav) worst ∧ bp.val = ⌊10000 * worst⌋ ∧ 0 ≤ bp.val ∧ bp.val < 10000 ∧
      ∀ points : List Domain.IndexPoint,
        points.map Domain.IndexPoint.index = nav.map (fun v => (v.val : ℚ)) →
        ∃ episode, Domain.maxDrawdown points = some episode ∧ bp.val = ⌊10000 * episode.magnitude⌋ := by
  obtain ⟨first, rest, rfl⟩ := List.exists_cons_of_ne_nil hne
  obtain ⟨hfits, bp, worst, hbp, hworst, hval, hlower, hupper⟩ := maxDrawdownBp_greatest hpos
  refine ⟨hfits, bp, worst, hbp, hworst, hval, hlower, hupper, fun points hpoints => ?_⟩
  obtain ⟨-, bp', episode', hbp', hepisode', hval', -, -⟩ := maxDrawdownBp_eq hpoints hpos
  rw [hbp, Except.ok.injEq] at hbp'
  exact ⟨episode', hepisode', hbp' ▸ hval'⟩

theorem max_drawdown_bp_agrees_example :
    DrawdownFits ((120 : Signed 64).cast 128) 0 [120, 90, 108] ∧ ∃ bp worst,
      maxDrawdownBp [120, 90, 108] = .ok bp ∧ IsGreatest (falls [120, 90, 108]) worst ∧
      bp.val = ⌊10000 * worst⌋ ∧ 0 ≤ bp.val ∧ bp.val < 10000 ∧
      ∀ points : List Domain.IndexPoint,
        points.map Domain.IndexPoint.index = [120, 90, 108].map (fun v : Signed 64 => (v.val : ℚ)) →
        ∃ episode, Domain.maxDrawdown points = some episode ∧ bp.val = ⌊10000 * episode.magnitude⌋ :=
  max_drawdown_bp_agrees [120, 90, 108] (by decide) (by decide)

end Drawdown

end Linvesther.Performance
