import Linvesther.Base.Falls
import Linvesther.Worker.History
import Linvesther.Zkvm.PerformanceFigures

/-! `build_guest_input`: the index of an account as whole numbers, and what the guest makes of them. -/

namespace Linvesther.Worker

open Transaction Performance

section Model

/-- `Decimal::round`: the nearest integer, and the even one of two. -/
def roundHalfEven (x : ℚ) : ℤ :=
  if x - ⌊x⌋ < 1 / 2 then ⌊x⌋
  else if 1 / 2 < x - ⌊x⌋ then ⌊x⌋ + 1
  else if ⌊x⌋ % 2 = 0 then ⌊x⌋
  else ⌊x⌋ + 1

def decimalToScaledI64 (value : ℚ) : Signed 64 := (Signed.checked 64 (roundHalfEven (value * SCALE.val))).getD 0

inductive ProveError where
  | insufficientHistory (points : ℕ)
deriving DecidableEq

/-- The series that `build_guest_input` makes of the index. -/
def guestSeries (twrIndex : List IndexPoint) : Except ProveError (List (Signed 64) × List (Signed 64)) :=
  if twrIndex.length < 2 then .error (.insufficientHistory twrIndex.length)
  else
    let nav := twrIndex.map fun p => decimalToScaledI64 p.index
    .ok (nav, (nav.zip nav.tail).map fun w => w.2 - w.1)

/-- What the guest has proven of the series says what the index says. -/
structure SaysTheSame (twrIndex : List IndexPoint) (nav : List (Signed 64)) (output : GuestOutput) : Prop where
  nearest : List.Forall₂ (fun p v => |(SCALE.val * p.index : ℚ) - v.val| ≤ 1 / 2) twrIndex nav
  lower : ∀ last ∈ nav.getLast?,
    (last.val : ℚ) - last.val * roundingLoss SCALE.val nav ≤ output.twrIndexScaled.val
  upper : ∀ last ∈ twrIndex.getLast?, (output.twrIndexScaled.val : ℚ) ≤ SCALE.val * last.index + 1 / 2
  drawdown : ∃ worst, IsGreatest (Falls.falls (twrIndex.map IndexPoint.index)) worst ∧
    |output.mddBp.val - ⌊10000 * worst⌋| ≤ 1

end Model

section Scaled

variable {nav : List (Signed 64)} {twrIndex : List IndexPoint}

theorem scale_val : SCALE.val = 1000000 := by decide

theorem roundHalfEven_near (x : ℚ) : |x - roundHalfEven x| ≤ 1 / 2 := by
  have hle := Int.floor_le x
  have hlt := Int.lt_floor_add_one x
  unfold roundHalfEven
  rw [abs_le]
  split_ifs
  · constructor <;> linarith
  · push_cast
    constructor <;> linarith
  · constructor <;> linarith
  · push_cast
    constructor <;> linarith

theorem roundHalfEven_nonneg {x : ℚ} (h : 0 ≤ x) : 0 ≤ roundHalfEven x := by
  have hfloor := Int.floor_nonneg.2 h
  unfold roundHalfEven
  split_ifs <;> omega

theorem decimalToScaledI64_nonneg {value : ℚ} (h : 0 ≤ value) : 0 ≤ (decimalToScaledI64 value).val := by
  have hscaled : 0 ≤ roundHalfEven (value * SCALE.val) := by
    refine roundHalfEven_nonneg (mul_nonneg h ?_)
    rw [scale_val]
    norm_num
  unfold decimalToScaledI64
  cases hchecked : Signed.checked 64 (roundHalfEven (value * SCALE.val)) with
  | none => exact le_refl _
  | some v => exact (Signed.checked_eq_some.1 hchecked) ▸ hscaled

/-- A value that is not the fallback is the nearest one. -/
theorem decimalToScaledI64_near {value : ℚ} (h : 0 < decimalToScaledI64 value) :
    |(SCALE.val * value : ℚ) - (decimalToScaledI64 value).val| ≤ 1 / 2 := by
  unfold decimalToScaledI64 at h ⊢
  cases hchecked : Signed.checked 64 (roundHalfEven (value * SCALE.val)) with
  | none =>
    rw [hchecked] at h
    exact absurd h (by decide)
  | some v =>
    rw [Option.getD_some, Signed.checked_eq_some.1 hchecked, mul_comm]
    exact roundHalfEven_near _

theorem decimalToScaledI64_one : decimalToScaledI64 1 = SCALE := by decide +kernel

/-- The differences of a series that is not negative are exact, and sum to what it gains. -/
theorem deltas_sum {first : Signed 64} {rest : List (Signed 64)} (hnonneg : ∀ v ∈ first :: rest, 0 ≤ v.val) :
    (values (((first :: rest).zip rest).map fun w => w.2 - w.1)).sum =
      ((first :: rest).getLast (List.cons_ne_nil _ _)).val - first.val := by
  induction rest generalizing first with
  | nil => simp [values]
  | cons next rest ih =>
    obtain ⟨hfirst, hrest⟩ := List.forall_mem_cons.1 hnonneg
    have hnext := hrest next List.mem_cons_self
    have hstep : (next - first).val = next.val - first.val := by
      refine Signed.val_sub ?_
      have hbefore := first.fits.2
      have hafter := next.fits.2
      unfold Fits
      omega
    have hsum := ih hrest
    rw [List.zip_cons_cons, List.map_cons, values, List.map_cons, List.sum_cons, hstep,
      List.getLast_cons (List.cons_ne_nil _ _)]
    rw [values] at hsum
    rw [hsum]
    omega

theorem reconcile_deltas (hne : nav ≠ []) (hnonneg : ∀ v ∈ nav, 0 ≤ v.val) :
    reconcile nav ((nav.zip nav.tail).map fun w => w.2 - w.1) = .ok () := by
  obtain ⟨first, rest, rfl⟩ := List.exists_cons_of_ne_nil hne
  rw [reconcile_ok, reconciled_iff]
  refine ⟨first, _, 0, rfl, List.getLast?_eq_some_getLast hne, ?_⟩
  rw [List.tail_cons, deltas_sum hnonneg, zero_mul, add_zero]

end Scaled

section Guest

variable {VerifyingKey Signature : Type} {crypto : Crypto VerifyingKey Signature} {first : Signed 64}
  {rest : List (Signed 64)}

/-- The figures of an accepted input. -/
theorem run_figures {input : GuestInput} {output : GuestOutput} (h : Performance.run crypto input = .ok output) :
    twrIndex input.nav = .ok output.twrIndexScaled ∧ maxDrawdownBp input.nav = .ok output.mddBp ∧
      ∀ v ∈ input.nav, 0 < v := by
  have hpositive := (run_ok h).2.2.positive
  unfold Performance.run at h
  simp only [bind_ok, mapError_ok, pure_ok, Prod.exists] at h
  obtain ⟨-, -, -, -, twr, htwr, mdd, hmdd, -, -, -, rfl⟩ := h
  exact ⟨htwr, hmdd, hpositive⟩

theorem falls_values (hpos : ∀ v ∈ first :: rest, 0 < v) :
    Performance.falls (first :: rest) = Falls.falls ((first :: rest).map fun v => (v.val : ℚ)) := by
  have hget {k : ℕ} {x : ℚ} : ((first :: rest).map fun v => (v.val : ℚ))[k]? = some x ↔
      ∃ v, (first :: rest)[k]? = some v ∧ (v.val : ℚ) = x := by
    rw [List.getElem?_map, Option.map_eq_some_iff]
  ext d
  constructor
  · rintro ⟨i, j, a, b, hij, ha, hb, rfl⟩
    exact ⟨i, j, a.val, b.val, hij, hget.2 ⟨a, ha, rfl⟩, hget.2 ⟨b, hb, rfl⟩,
      fall_value (hpos a (List.mem_of_getElem? ha))⟩
  · rintro ⟨i, j, x, y, hij, hx, hy, rfl⟩
    obtain ⟨a, ha, rfl⟩ := hget.1 hx
    obtain ⟨b, hb, rfl⟩ := hget.1 hy
    exact ⟨i, j, a, b, hij, ha, hb, (fall_value (hpos a (List.mem_of_getElem? ha))).symm⟩

/-- Of a series from one on, the index is not above its last value and falls short of it by the rounding losses. -/
theorem twrIndex_from_scale (hpos : ∀ v ∈ SCALE :: rest, 0 < v) {result : Signed 128}
    (h : twrIndex (SCALE :: rest) = .ok result) {last : Signed 64} (hlast : (SCALE :: rest).getLast? = some last) :
    (last.val : ℚ) - last.val * roundingLoss SCALE.val (SCALE :: rest) ≤ result.val ∧
      (result.val : ℚ) ≤ last.val := by
  obtain ⟨-, result', hresult, hval⟩ := twrIndex_eq_chain hpos
  rw [h, Except.ok.injEq] at hresult
  subst hresult
  obtain ⟨hupper, hlower⟩ := FloorChain.chain_scale_bounds (show (0 : ℤ) < 1000000 by norm_num)
    (show ∀ v ∈ SCALE.val :: values rest, 0 < v from values_pos hpos)
  have hend : (SCALE.val :: values rest).getLast (List.cons_ne_nil _ _) = last.val := by
    rw [List.getLast?_eq_some_getLast (List.cons_ne_nil _ _), Option.some.injEq] at hlast
    rw [← hlast]
    show ((SCALE :: rest).map Signed.val).getLast (by simp) = _
    rw [List.getLast_map]
  have hchain : FloorChain.chain 1000000 1000000 (SCALE.val :: values rest) = result.val := hval.symm
  have hone : ((1000000 : ℤ) : ℚ) * (last.val / SCALE.val) = last.val := by
    rw [scale_val]
    push_cast
    ring
  rw [hend, hchain, hone] at hupper hlower
  refine ⟨?_, hupper⟩
  rw [roundingLoss_eq]
  have hsum : FloorChain.loss SCALE.val (SCALE.val :: values rest) =
      FloorChain.loss SCALE.val (values (SCALE :: rest)) := rfl
  rw [hsum] at hlower
  linarith

end Guest

section Main

variable {VerifyingKey Signature : Type} {crypto : Crypto VerifyingKey Signature} {points : List IndexPoint}

theorem nearest_of_pos (hpos : ∀ v ∈ points.map fun p => decimalToScaledI64 p.index, 0 < v) :
    List.Forall₂ (fun p v => |(SCALE.val * p.index : ℚ) - v.val| ≤ 1 / 2) points
      (points.map fun p => decimalToScaledI64 p.index) := by
  rw [List.forall₂_map_right_iff, List.forall₂_same]
  intro p hp
  exact decimalToScaledI64_near (hpos _ (List.mem_map_of_mem hp))

theorem forall₂_getLast {α β : Type} {R : α → β → Prop} {l : List α} {m : List β} (h : List.Forall₂ R l m) {a : α}
    (ha : l.getLast? = some a) : ∃ b, m.getLast? = some b ∧ R a b := by
  induction h with
  | nil => cases ha
  | @cons x y l m hxy h ih =>
    cases h with
    | nil =>
      cases ha
      exact ⟨y, rfl, hxy⟩
    | cons hnext hrest =>
      obtain ⟨b, hb, hab⟩ := ih (by simpa using ha)
      exact ⟨b, by simpa using hb, hab⟩

/-- A peak is never below the first value, so rounding moves a fall by less than a hundredth of a basis point. -/
theorem drawdown_near {first : IndexPoint} {rest : List IndexPoint} (hone : first.index = 1)
    (hpos : ∀ p ∈ first :: rest, 0 < p.index)
    (hnav : ∀ v ∈ (first :: rest).map fun p => decimalToScaledI64 p.index, 0 < v) {bp : Signed 64}
    (hbp : maxDrawdownBp ((first :: rest).map fun p => decimalToScaledI64 p.index) = .ok bp) :
    ∃ worst, IsGreatest (Falls.falls ((first :: rest).map IndexPoint.index)) worst ∧
      |bp.val - ⌊10000 * worst⌋| ≤ 1 := by
  have hscale : (SCALE.val : ℚ) = 1000000 := by
    rw [scale_val]
    norm_num
  obtain ⟨-, bp', worstNav, hbp', hworstNav, hval, -, -⟩ := maxDrawdownBp_greatest hnav
  rw [← List.map_cons (f := fun p : IndexPoint => decimalToScaledI64 p.index), hbp, Except.ok.injEq] at hbp'
  subst hbp'
  rw [falls_values hnav] at hworstNav
  obtain ⟨worst, hworst⟩ := Falls.exists_greatest (l := (first :: rest).map IndexPoint.index) (by simp)
  refine ⟨worst, hworst, ?_⟩
  rw [← Falls.falls_map_mul (c := (SCALE.val : ℚ)) (by rw [hscale]; norm_num), List.map_map] at hworst
  have hnear := nearest_of_pos hnav
  have hnear' : List.Forall₂ (fun a b => |a - b| ≤ (1 / 2 : ℚ))
      ((first :: rest).map ((SCALE.val * · : ℚ → ℚ) ∘ IndexPoint.index))
      (((first :: rest).map fun p => decimalToScaledI64 p.index).map fun v => (v.val : ℚ)) := by
    rw [List.forall₂_map_left_iff, List.forall₂_map_right_iff]
    exact hnear
  have hpos' : ∀ a ∈ (first :: rest).map ((SCALE.val * · : ℚ → ℚ) ∘ IndexPoint.index), 0 < a := by
    refine List.forall_mem_map.2 fun p hp => mul_pos ?_ (hpos p hp)
    rw [hscale]
    norm_num
  have hnavpos : ∀ a ∈ ((first :: rest).map fun p => decimalToScaledI64 p.index).map fun v => (v.val : ℚ), 0 < a := by
    refine List.forall_mem_map.2 fun v hv => ?_
    exact_mod_cast (show 0 < v.val from hnav v hv)
  have hbelow := Falls.greatest_le_add hnear' hpos' (M := 1000000) (by simp [hone, hscale]) (by norm_num) hworst
    hworstNav
  have habove := Falls.greatest_le_add (hnear'.flip.imp fun a b h => (abs_sub_comm a b).trans_le h) hnavpos
    (M := 1000000) (by simp [hone, decimalToScaledI64_one, hscale]) (by norm_num) hworstNav hworst
  rw [hval]
  refine Falls.abs_floor_sub_le ?_ ?_
  · norm_num at habove
    linarith
  · norm_num at hbelow
    linarith

/-- What the prover makes of an index that starts at one reconciles, and whatever the guest proves of it is what the
index says: up to rounding. -/
theorem proven_figures (crypto : Crypto VerifyingKey Signature) (points : List IndexPoint)
    (hlength : 2 ≤ points.length) (hstart : points.head?.map IndexPoint.index = some 1)
    (hpos : ∀ p ∈ points, 0 < p.index) :
    ∃ nav deltas, guestSeries points = .ok (nav, deltas) ∧ reconcile nav deltas = .ok () ∧
      ∀ input output, input.nav = nav → input.ledgerDeltas = deltas →
        Performance.run crypto input = .ok output → SaysTheSame points nav output := by
  have hne : points ≠ [] := by
    rintro rfl
    simp at hlength
  obtain ⟨first, rest, rfl⟩ := List.exists_cons_of_ne_nil hne
  have hone : first.index = 1 := by simpa using hstart
  refine ⟨_, _, if_neg (by omega), reconcile_deltas (by simp) ?_, ?_⟩
  · exact List.forall_mem_map.2 fun p hp => decimalToScaledI64_nonneg (hpos p hp).le
  · rintro input output hnav - hrun
    obtain ⟨htwr, hmdd, hnavpos⟩ := run_figures hrun
    rw [hnav] at htwr hmdd hnavpos
    have hnear := nearest_of_pos hnavpos
    rw [List.map_cons, hone, decimalToScaledI64_one] at htwr hnavpos
    refine ⟨hnear, fun last hlast => ?_, fun last hlast => ?_, drawdown_near hone hpos ?_ hmdd⟩
    · rw [List.map_cons, hone, decimalToScaledI64_one] at hlast ⊢
      exact (twrIndex_from_scale hnavpos htwr hlast).1
    · obtain ⟨v, hv, hdist⟩ := forall₂_getLast hnear hlast
      rw [List.map_cons, hone, decimalToScaledI64_one] at hv
      have hupper := (twrIndex_from_scale hnavpos htwr hv).2
      have hrounded := (abs_le.1 hdist).1
      linarith
    · rwa [List.map_cons, hone, decimalToScaledI64_one]

/-- A rise by a half and a fall by a sixth. -/
theorem proven_figures_example :
    ∃ nav deltas, guestSeries [⟨0, 1⟩, ⟨DAY_MS, 3 / 2⟩, ⟨2 * DAY_MS, 5 / 4⟩] = .ok (nav, deltas) ∧
      reconcile nav deltas = .ok () ∧
      ∀ input output, input.nav = nav → input.ledgerDeltas = deltas →
        Performance.run exampleCrypto input = .ok output →
          SaysTheSame [⟨0, 1⟩, ⟨DAY_MS, 3 / 2⟩, ⟨2 * DAY_MS, 5 / 4⟩] nav output :=
  proven_figures exampleCrypto _ (by decide) rfl (by simp)

end Main

end Linvesther.Worker
