import Linvesther.Base.WeightedMean

/-! `combine.ts`: the return curves of several accounts as one, over the times of all of them. The accounts' values only
weigh; what comes out is returns. -/

namespace Linvesther.Api.CombinedReturns

open WeightedMean

section Code

structure Point where
  timeMs : ℤ
  nav : ℚ
  index : ℚ
deriving DecidableEq

/-- The points of one account. -/
abbrev AccountSeries := List Point

structure CurvePoint where
  timeMs : ℤ
  growth : ℚ
deriving DecidableEq

/-- The set of all times, sorted. -/
def times (accounts : List AccountSeries) : List ℤ :=
  (accounts.flatMap fun a => a.map Point.timeMs).dedup.insertionSort (· ≤ ·)

/-- The `while` loop over the points that are still ahead. The code's cursor is the place of the last point that is
passed, so it is one less than their number. -/
def passWhile (time : ℤ) : List Point → ℕ → ℕ
  | [], passed => passed
  | next :: rest, passed => if next.timeMs ≤ time then passWhile time rest (passed + 1) else passed

def advance (time : ℤ) (points : AccountSeries) (passed : ℕ) : ℕ := passWhile time (points.drop passed) passed

/-- The point at the cursor; before the first there is none, and the code's numbers are `NaN`. -/
def pointAt (points : AccountSeries) (passed : ℕ) : Option Point :=
  if passed = 0 then none else points[passed - 1]?

/-- A turn of the inner loop: `weighted` and `total`. -/
def addAccount (sums : ℚ × ℚ) : Option Point × Option Point → ℚ × ℚ
  | (some before, some current) =>
    if before.index = 0 then sums
    else (sums.1 + before.nav * (current.index / before.index - 1), sums.2 + before.nav)
  | _ => sums

def grow (growth : ℚ) (previous now : List (Option Point)) : ℚ :=
  let sums := (previous.zip now).foldl addAccount (0, 0)
  if 0 < sums.2 then growth * (1 + sums.1 / sums.2) else growth

structure Walk where
  passed : List ℕ
  growth : ℚ
  previous : Option (List (Option Point))
  curve : List CurvePoint

def visit (accounts : List AccountSeries) (w : Walk) (time : ℤ) : Walk :=
  let passed := List.zipWith (advance time) accounts w.passed
  let now := List.zipWith pointAt accounts passed
  let growth := w.previous.elim w.growth fun previous => grow w.growth previous now
  ⟨passed, growth, some now, w.curve ++ [⟨time, growth⟩]⟩

def combineReturns (accounts : List AccountSeries) : List CurvePoint :=
  ((times accounts).foldl (visit accounts) ⟨accounts.map fun _ => 0, 1, none, []⟩).curve

/-- The peak so far and the worst fall from a peak. -/
def fall (s : ℚ × ℚ) (point : CurvePoint) : ℚ × ℚ :=
  let peak := max s.1 point.growth
  (peak, if 0 < peak then max s.2 ((peak - point.growth) / peak) else s.2)

def maxDrawdown (curve : List CurvePoint) : ℚ := (curve.foldl fall (0, 0)).2

end Code

section Cursor

variable {points : AccountSeries} {s t : ℤ}

def passedAt (t : ℤ) (points : AccountSeries) : ℕ := (points.takeWhile fun p => p.timeMs ≤ t).length

/-- The last point that is passed by then. -/
def lastAt (t : ℤ) (points : AccountSeries) : Option Point := (points.takeWhile fun p => p.timeMs ≤ t).getLast?

theorem passWhile_eq (t : ℤ) (points : AccountSeries) (passed : ℕ) :
    passWhile t points passed = passed + passedAt t points := by
  unfold passedAt
  induction points generalizing passed with
  | nil => rfl
  | cons next rest ih =>
    unfold passWhile
    rw [List.takeWhile_cons, ih]
    by_cases hnext : next.timeMs ≤ t
    · simp only [hnext, decide_true, if_true, List.length_cons]
      omega
    · simp only [hnext, decide_false, if_false]
      rfl

/-- A longer stretch is a shorter one and what it goes on with. -/
theorem takeWhile_later (hst : s ≤ t) (points : AccountSeries) :
    points.takeWhile (fun p => p.timeMs ≤ t) =
      points.takeWhile (fun p => p.timeMs ≤ s) ++ (points.drop (passedAt s points)).takeWhile fun p => p.timeMs ≤ t := by
  unfold passedAt
  induction points with
  | nil => rfl
  | cons p rest ih =>
    by_cases hp : p.timeMs ≤ s
    · simpa [hp, hp.trans hst] using ih
    · simp [hp]

/-- The cursor invariant: what is passed at one time is a start for every later one. -/
theorem advance_passedAt (hst : s ≤ t) (points : AccountSeries) :
    advance t points (passedAt s points) = passedAt t points := by
  unfold advance
  rw [passWhile_eq]
  conv_rhs => rw [passedAt, takeWhile_later hst, List.length_append]
  rfl

theorem advance_zero (t : ℤ) (points : AccountSeries) : advance t points 0 = passedAt t points := by
  unfold advance
  rw [passWhile_eq, List.drop_zero, zero_add]

theorem pointAt_passedAt (t : ℤ) (points : AccountSeries) : pointAt points (passedAt t points) = lastAt t points := by
  unfold pointAt passedAt lastAt
  have hprior : (points.takeWhile fun p => p.timeMs ≤ t) <+: points := List.takeWhile_prefix _
  generalize points.takeWhile (fun p => p.timeMs ≤ t) = seen at hprior
  obtain ⟨rest, rfl⟩ := hprior
  rw [List.getLast?_eq_getElem?]
  split_ifs with hzero
  · rw [List.length_eq_zero_iff.1 hzero]
    rfl
  · rw [List.getElem?_append_left (by omega)]

/-- The point an account stands at: its latest by then. -/
def StandsAt (points : AccountSeries) (t : ℤ) (p : Point) : Prop :=
  p ∈ points ∧ p.timeMs ≤ t ∧ ∀ q ∈ points, q.timeMs ≤ t → q.timeMs ≤ p.timeMs

def InOrder (points : AccountSeries) : Prop := points.Pairwise fun p q => p.timeMs < q.timeMs

theorem takeWhile_eq_filter (h : InOrder points) (t : ℤ) :
    points.takeWhile (fun p => p.timeMs ≤ t) = points.filter fun p => p.timeMs ≤ t := by
  induction points with
  | nil => rfl
  | cons p rest ih =>
    obtain ⟨hp, hrest⟩ := List.pairwise_cons.1 h
    rw [List.takeWhile_cons, List.filter_cons]
    split_ifs with hle
    · rw [ih hrest]
    · symm
      rw [List.filter_eq_nil_iff]
      intro q hq hqt
      rw [decide_eq_true_eq] at hqt hle
      exact hle ((hp q hq).le.trans hqt)

theorem lastAt_eq_some_iff (h : InOrder points) {p : Point} : lastAt t points = some p ↔ StandsAt points t p := by
  unfold lastAt StandsAt
  rw [takeWhile_eq_filter h]
  constructor
  · intro hlast
    obtain ⟨lo, hlo⟩ := List.getLast?_eq_some_iff.1 hlast
    have hmem := List.mem_filter.1 (hlo ▸ List.mem_concat_self : p ∈ points.filter fun p => p.timeMs ≤ t)
    refine ⟨hmem.1, of_decide_eq_true hmem.2, fun q hq hqt => ?_⟩
    have hsorted := h.sublist (List.filter_sublist (p := fun p => decide (p.timeMs ≤ t)))
    have hin : q ∈ lo ++ [p] := hlo ▸ List.mem_filter.2 ⟨hq, decide_eq_true hqt⟩
    rw [hlo] at hsorted
    rcases List.mem_append.1 hin with hq | hq
    · exact ((List.pairwise_append.1 hsorted).2.2 q hq p List.mem_cons_self).le
    · rw [List.mem_singleton.1 hq]
  · intro ⟨hp, hpt, hmax⟩
    have hin : p ∈ points.filter fun p => p.timeMs ≤ t := List.mem_filter.2 ⟨hp, decide_eq_true hpt⟩
    obtain ⟨lo, hi, hsplit⟩ := List.append_of_mem hin
    have hsorted := h.sublist (List.filter_sublist (p := fun p => decide (p.timeMs ≤ t)))
    rw [hsplit] at hsorted
    have hnil : hi = [] := by
      refine List.eq_nil_iff_forall_not_mem.2 fun q hq => ?_
      have hlater := (List.pairwise_cons.1 (List.pairwise_append.1 hsorted).2.1).1 q hq
      have hqin := List.mem_filter.1 (hsplit ▸ List.mem_append_right lo (List.mem_cons_of_mem p hq) :
        q ∈ points.filter fun p => p.timeMs ≤ t)
      exact hlater.not_ge (hmax q hqin.1 (of_decide_eq_true hqin.2))
    rw [hsplit, hnil]
    exact List.getLast?_concat

end Cursor

section Curve

variable {accounts accounts' : List AccountSeries} {s t : ℤ}

/-- What an account counts with over an interval: its value at the start, and the ratio of its index. -/
def holding (s t : ℤ) (points : AccountSeries) : Option (ℚ × ℚ) :=
  match lastAt s points, lastAt t points with
  | some before, some current => if before.index = 0 then none else some (before.nav, current.index / before.index)
  | _, _ => none

def factor (accounts : List AccountSeries) (s t : ℤ) : ℚ :=
  let holdings := accounts.filterMap (holding s t)
  if 0 < total holdings then mean holdings else 1

/-- The curve after a time, as a chain of factors. -/
def curveFrom (accounts : List AccountSeries) (growth : ℚ) (s : ℤ) : List ℤ → List CurvePoint
  | [] => []
  | t :: rest =>
    ⟨t, growth * factor accounts s t⟩ :: curveFrom accounts (growth * factor accounts s t) t rest

theorem foldl_addAccount (s t : ℤ) (accounts : List AccountSeries) (sums : ℚ × ℚ) :
    ((accounts.map (lastAt s)).zip (accounts.map (lastAt t))).foldl addAccount sums =
      (sums.1 + ((accounts.filterMap (holding s t)).map fun p => p.1 * (p.2 - 1)).sum,
        sums.2 + total (accounts.filterMap (holding s t))) := by
  induction accounts generalizing sums with
  | nil => simp [total]
  | cons points rest ih =>
    rw [List.map_cons, List.map_cons, List.zip_cons_cons, List.foldl_cons, ih, List.filterMap_cons]
    cases hs : lastAt s points with
    | none => simp [addAccount, holding, hs]
    | some before =>
      cases ht : lastAt t points with
      | none => simp [addAccount, holding, hs, ht]
      | some current =>
        by_cases hzero : before.index = 0
        · simp [addAccount, holding, hs, ht, hzero]
        · simp [addAccount, holding, hs, ht, hzero, add_assoc]

theorem grow_eq (growth : ℚ) (accounts : List AccountSeries) (s t : ℤ) :
    grow growth (accounts.map (lastAt s)) (accounts.map (lastAt t)) = growth * factor accounts s t := by
  unfold grow factor
  rw [foldl_addAccount]
  simp only [zero_add]
  split_ifs with htotal
  · rw [one_add_gain htotal.ne']
  · rw [mul_one]

/-- The walk stands at a time: the cursors and the points they are at. -/
def Stands (accounts : List AccountSeries) (t : ℤ) (w : Walk) : Prop :=
  w.passed = accounts.map (passedAt t) ∧ w.previous = some (accounts.map (lastAt t))

theorem visit_stands {w : Walk} (hpassed : List.zipWith (advance t) accounts w.passed = accounts.map (passedAt t)) :
    Stands accounts t (visit accounts w t) := by
  unfold Stands visit
  dsimp only
  rw [hpassed]
  refine ⟨rfl, ?_⟩
  rw [List.zipWith_map_right, List.zipWith_self]
  simp only [pointAt_passedAt]

theorem Stands.visit {w : Walk} (hst : s ≤ t) (h : Stands accounts s w) : Stands accounts t (visit accounts w t) := by
  refine visit_stands ?_
  rw [h.1, List.zipWith_map_right, List.zipWith_self]
  simp only [advance_passedAt hst]

theorem Stands.growth_visit {w : Walk} (hst : s ≤ t) (h : Stands accounts s w) :
    (CombinedReturns.visit accounts w t).growth = w.growth * factor accounts s t := by
  have hnow := (h.visit hst).2
  unfold CombinedReturns.visit at hnow ⊢
  dsimp only at hnow ⊢
  rw [Option.some.inj hnow, h.2, Option.elim_some, grow_eq]

theorem curve_foldl {w : Walk} (h : Stands accounts s w) {ts : List ℤ} (hts : (s :: ts).Pairwise (· ≤ ·)) :
    (ts.foldl (CombinedReturns.visit accounts) w).curve = w.curve ++ curveFrom accounts w.growth s ts := by
  induction ts generalizing w s with
  | nil => simp [curveFrom]
  | cons t ts ih =>
    obtain ⟨hs, hts⟩ := List.pairwise_cons.1 hts
    have hst := hs t List.mem_cons_self
    rw [List.foldl_cons, ih (h.visit hst) hts, h.growth_visit hst]
    conv_lhs => rw [show (CombinedReturns.visit accounts w t).curve =
      w.curve ++ [⟨t, (CombinedReturns.visit accounts w t).growth⟩] from rfl, h.growth_visit hst]
    rw [List.append_assoc]
    rfl

theorem times_sorted (accounts : List AccountSeries) : (times accounts).Pairwise (· ≤ ·) :=
  List.pairwise_insertionSort _ _

theorem mem_times : t ∈ times accounts ↔ ∃ points ∈ accounts, ∃ p ∈ points, p.timeMs = t := by
  simp [times, (List.perm_insertionSort _ _).mem_iff]

theorem times_nodup (accounts : List AccountSeries) : (times accounts).Nodup :=
  (List.perm_insertionSort _ _).nodup_iff.2 (List.nodup_dedup _)

/-- The whole curve: growth one at the first time, then a factor for each interval. -/
theorem combineReturns_eq {ts : List ℤ} (h : times accounts = t :: ts) :
    combineReturns accounts = ⟨t, 1⟩ :: curveFrom accounts 1 t ts := by
  have hstart : Stands accounts t (visit accounts ⟨accounts.map fun _ => 0, 1, none, []⟩ t) := by
    refine visit_stands ?_
    dsimp only
    rw [List.zipWith_map_right, List.zipWith_self]
    simp only [advance_zero]
  unfold combineReturns
  rw [h, List.foldl_cons, curve_foldl hstart (h ▸ times_sorted accounts)]
  rfl

theorem combineReturns_nil (h : times accounts = []) : combineReturns accounts = [] := by
  unfold combineReturns
  rw [h]
  rfl

theorem times_curveFrom (growth : ℚ) (s : ℤ) (ts : List ℤ) :
    (curveFrom accounts growth s ts).map CurvePoint.timeMs = ts := by
  induction ts generalizing growth s with
  | nil => rfl
  | cons t ts ih => rw [curveFrom, List.map_cons, ih]

theorem times_combineReturns (accounts : List AccountSeries) :
    (combineReturns accounts).map CurvePoint.timeMs = times accounts := by
  cases h : times accounts with
  | nil => rw [combineReturns_nil h, List.map_nil]
  | cons t ts => rw [combineReturns_eq h, List.map_cons, times_curveFrom]

/-- The curve is told by the times and by the factors between them. -/
theorem combineReturns_congr (htimes : times accounts = times accounts')
    (hfactor : ∀ s t, factor accounts s t = factor accounts' s t) :
    combineReturns accounts = combineReturns accounts' := by
  have hfrom : ∀ growth s ts, curveFrom accounts growth s ts = curveFrom accounts' growth s ts := by
    intro growth s ts
    induction ts generalizing growth s with
    | nil => rfl
    | cons t ts ih => rw [curveFrom, curveFrom, hfactor, ih]
  cases h : times accounts with
  | nil => rw [combineReturns_nil h, combineReturns_nil (htimes ▸ h)]
  | cons t ts => rw [combineReturns_eq h, combineReturns_eq (htimes ▸ h), hfrom]

theorem times_congr (h : ∀ t, t ∈ times accounts ↔ t ∈ times accounts') : times accounts = times accounts' := by
  have hperm := (List.perm_ext_iff_of_nodup (times_nodup accounts) (times_nodup accounts')).2 h
  exact hperm.eq_of_pairwise' (times_sorted accounts) (times_sorted accounts')

theorem curve_chain (accounts : List AccountSeries) :
    (combineReturns accounts).IsChain fun c d =>
      d.growth = c.growth * factor accounts c.timeMs d.timeMs := by
  have hfrom : ∀ growth s ts, (⟨s, growth⟩ :: curveFrom accounts growth s ts).IsChain fun c d =>
      d.growth = c.growth * factor accounts c.timeMs d.timeMs := by
    intro growth s ts
    induction ts generalizing growth s with
    | nil => exact .singleton _
    | cons t ts ih => exact .cons_cons rfl (ih _ _)
  cases h : times accounts with
  | nil => exact combineReturns_nil h ▸ .nil
  | cons t ts => exact combineReturns_eq h ▸ hfrom 1 t ts

end Curve

section Laws

variable {accounts accounts' : List AccountSeries} {points : AccountSeries} {s t : ℤ}

/-- Points as the worker serves them. -/
structure Orderly (points : AccountSeries) : Prop where
  inOrder : InOrder points
  nav : ∀ p ∈ points, 0 ≤ p.nav
  index : ∀ p ∈ points, 0 < p.index

/-- The ratios of the accounts that hold something at the start of an interval. -/
def Ratio (accounts : List AccountSeries) (s t : ℤ) (r : ℚ) : Prop :=
  ∃ points ∈ accounts, ∃ p q, StandsAt points s p ∧ StandsAt points t q ∧ 0 < p.nav ∧ r = q.index / p.index

/-- Nothing is held at the start of an interval. -/
def Idle (accounts : List AccountSeries) (s : ℤ) : Prop :=
  ∀ points ∈ accounts, ∀ p, StandsAt points s p → ¬ 0 < p.nav

/-- Over an interval the growth changes by a factor between two of the ratios, or stays. -/
def Between (accounts : List AccountSeries) (c d : CurvePoint) : Prop :=
  (Idle accounts c.timeMs ∧ d.growth = c.growth) ∨
    ∃ change low high, d.growth = c.growth * change ∧ Ratio accounts c.timeMs d.timeMs low ∧ low ≤ change ∧
      Ratio accounts c.timeMs d.timeMs high ∧ change ≤ high

theorem lastAt_later (hst : s ≤ t) {p : Point} (hp : lastAt s points = some p) : ∃ q, lastAt t points = some q := by
  unfold lastAt at hp ⊢
  rw [takeWhile_later hst, List.getLast?_append, hp]
  exact Option.isSome_iff_exists.1 (by simp)

theorem holding_eq (h : Orderly points) {p q : Point} (hp : StandsAt points s p) (hq : StandsAt points t q) :
    holding s t points = some (p.nav, q.index / p.index) := by
  unfold holding
  rw [(lastAt_eq_some_iff h.inOrder).2 hp, (lastAt_eq_some_iff h.inOrder).2 hq]
  exact if_neg (h.index p hp.1).ne'

theorem exists_of_holding (h : Orderly points) {e : ℚ × ℚ} (he : holding s t points = some e) :
    ∃ p q, StandsAt points s p ∧ StandsAt points t q ∧ e = (p.nav, q.index / p.index) := by
  cases hs : lastAt s points with
  | none => simp [holding, hs] at he
  | some p =>
    cases ht : lastAt t points with
    | none => simp [holding, hs, ht] at he
    | some q =>
      have hp := (lastAt_eq_some_iff h.inOrder).1 hs
      have hq := (lastAt_eq_some_iff h.inOrder).1 ht
      rw [holding_eq h hp hq] at he
      exact ⟨p, q, hp, hq, (Option.some.inj he).symm⟩

theorem holdings_nonneg (h : ∀ points ∈ accounts, Orderly points) :
    ∀ e ∈ accounts.filterMap (holding s t), 0 ≤ e.1 := by
  intro e he
  obtain ⟨points, hpoints, hheld⟩ := List.mem_filterMap.1 he
  obtain ⟨p, q, hp, -, rfl⟩ := exists_of_holding (h points hpoints) hheld
  exact (h points hpoints).nav p hp.1

theorem ratio_of_mem (h : ∀ points ∈ accounts, Orderly points) {e : ℚ × ℚ}
    (he : e ∈ accounts.filterMap (holding s t)) (hpos : 0 < e.1) : Ratio accounts s t e.2 := by
  obtain ⟨points, hpoints, hheld⟩ := List.mem_filterMap.1 he
  obtain ⟨p, q, hp, hq, rfl⟩ := exists_of_holding (h points hpoints) hheld
  exact ⟨points, hpoints, p, q, hp, hq, hpos, rfl⟩

/-- Where something is held at the start, the whole weighs something. -/
theorem total_holdings_pos (h : ∀ points ∈ accounts, Orderly points) (hst : s ≤ t) (hidle : ¬ Idle accounts s) :
    0 < total (accounts.filterMap (holding s t)) := by
  unfold Idle at hidle
  push Not at hidle
  obtain ⟨points, hpoints, p, hp, hpos⟩ := hidle
  have hinOrder := (h points hpoints).inOrder
  obtain ⟨q, hq⟩ := lastAt_later hst ((lastAt_eq_some_iff hinOrder).2 hp)
  have hheld := holding_eq (h points hpoints) hp ((lastAt_eq_some_iff hinOrder).1 hq)
  exact total_pos (holdings_nonneg h) (List.mem_filterMap.2 ⟨points, hpoints, hheld⟩) hpos

theorem factor_between (h : ∀ points ∈ accounts, Orderly points) {c d : CurvePoint} (hcd : c.timeMs ≤ d.timeMs)
    (hgrowth : d.growth = c.growth * factor accounts c.timeMs d.timeMs) : Between accounts c d := by
  unfold factor at hgrowth
  dsimp only at hgrowth
  by_cases htotal : 0 < total (accounts.filterMap (holding c.timeMs d.timeMs))
  · rw [if_pos htotal] at hgrowth
    obtain ⟨low, hlow, hlowpos, hle⟩ := exists_le_mean (holdings_nonneg h) htotal
    obtain ⟨high, hhigh, hhighpos, hge⟩ := exists_ge_mean (holdings_nonneg h) htotal
    exact .inr ⟨_, low.2, high.2, hgrowth, ratio_of_mem h hlow hlowpos, hle, ratio_of_mem h hhigh hhighpos, hge⟩
  · rw [if_neg htotal, mul_one] at hgrowth
    exact .inl ⟨by_contra fun hidle => htotal (total_holdings_pos h hcd hidle), hgrowth⟩

theorem curve_sorted (accounts : List AccountSeries) :
    (combineReturns accounts).Pairwise fun c d => c.timeMs < d.timeMs := by
  have hlt := (times_sorted accounts).imp₂ (fun _ _ hle hne => lt_of_le_of_ne hle hne) (times_nodup accounts)
  rw [← times_combineReturns] at hlt
  exact List.pairwise_map.1 hlt

theorem curve_between (h : ∀ points ∈ accounts, Orderly points) :
    (combineReturns accounts).IsChain (Between accounts) := by
  rw [List.isChain_iff_forall_rel_of_append_cons_cons]
  intro c d lo hi hsplit
  have hgrowth := List.isChain_iff_forall_rel_of_append_cons_cons.1 (curve_chain accounts) hsplit
  have hlt := List.isChain_iff_forall_rel_of_append_cons_cons.1 (curve_sorted accounts).isChain hsplit
  exact factor_between h hlt.le hgrowth

theorem head_growth {c : CurvePoint} (h : (combineReturns accounts).head? = some c) : c.growth = 1 := by
  cases htimes : times accounts with
  | nil => simp [combineReturns_nil htimes] at h
  | cons t ts =>
    rw [combineReturns_eq htimes, List.head?_cons] at h
    rw [← Option.some.inj h]

theorem combineReturns_perm (h : accounts.Perm accounts') : combineReturns accounts = combineReturns accounts' := by
  refine combineReturns_congr (times_congr fun t => ?_) fun s t => ?_
  · simp only [mem_times, h.mem_iff]
  · have hholdings := h.filterMap (holding s t)
    unfold factor mean
    dsimp only
    rw [total_perm hholdings, weighted_perm hholdings]

/-- One account's points as two accounts with the same index, whose values add up to its own. -/
inductive Splits : AccountSeries → AccountSeries → AccountSeries → Prop
  | nil : Splits [] [] []
  | cons {as bs cs : AccountSeries} (timeMs : ℤ) (index n m : ℚ) (rest : Splits as bs cs) :
    Splits (⟨timeMs, n + m, index⟩ :: as) (⟨timeMs, n, index⟩ :: bs) (⟨timeMs, m, index⟩ :: cs)

section Split

variable {as bs cs : AccountSeries}

theorem Splits.takeWhile (h : Splits as bs cs) (t : ℤ) :
    Splits (as.takeWhile fun p => p.timeMs ≤ t) (bs.takeWhile fun p => p.timeMs ≤ t)
      (cs.takeWhile fun p => p.timeMs ≤ t) := by
  induction h with
  | nil => exact .nil
  | cons timeMs index n m rest ih =>
    by_cases hle : timeMs ≤ t
    · simpa [hle] using ih.cons timeMs index n m
    · simpa [hle] using Splits.nil

/-- None of the three has a last point, or all do at one time, with one index. -/
theorem Splits.getLast? (h : Splits as bs cs) :
    (as.getLast? = none ∧ bs.getLast? = none ∧ cs.getLast? = none) ∨
      ∃ timeMs index n m, as.getLast? = some ⟨timeMs, n + m, index⟩ ∧ bs.getLast? = some ⟨timeMs, n, index⟩ ∧
        cs.getLast? = some ⟨timeMs, m, index⟩ := by
  induction h with
  | nil => exact .inl ⟨rfl, rfl, rfl⟩
  | cons timeMs index n m rest ih =>
    right
    simp only [List.getLast?_cons]
    rcases ih with ⟨ha, hb, hc⟩ | ⟨timeMs', index', n', m', ha, hb, hc⟩
    · rw [ha, hb, hc]
      exact ⟨timeMs, index, n, m, rfl, rfl, rfl⟩
    · rw [ha, hb, hc]
      exact ⟨timeMs', index', n', m', rfl, rfl, rfl⟩

theorem Splits.holding (h : Splits as bs cs) (s t : ℤ) :
    (holding s t as = none ∧ holding s t bs = none ∧ holding s t cs = none) ∨
      ∃ n m r, holding s t as = some (n + m, r) ∧ holding s t bs = some (n, r) ∧ holding s t cs = some (m, r) := by
  unfold CombinedReturns.holding lastAt
  rcases (h.takeWhile s).getLast? with ⟨ha, hb, hc⟩ | ⟨timeMs, index, n, m, ha, hb, hc⟩
  · exact .inl ⟨by rw [ha], by rw [hb], by rw [hc]⟩
  · rcases (h.takeWhile t).getLast? with ⟨ha', hb', hc'⟩ | ⟨timeMs', index', n', m', ha', hb', hc'⟩
    · exact .inl ⟨by rw [ha, ha'], by rw [hb, hb'], by rw [hc, hc']⟩
    · rw [ha, hb, hc, ha', hb', hc']
      by_cases hzero : index = 0
      · exact .inl ⟨if_pos hzero, if_pos hzero, if_pos hzero⟩
      · exact .inr ⟨n, m, index' / index, if_neg hzero, if_neg hzero, if_neg hzero⟩

theorem Splits.times (h : Splits as bs cs) :
    bs.map Point.timeMs = as.map Point.timeMs ∧ cs.map Point.timeMs = as.map Point.timeMs := by
  induction h with
  | nil => exact ⟨rfl, rfl⟩
  | cons timeMs index n m rest ih =>
    simp only [List.map_cons]
    exact ⟨by rw [ih.1], by rw [ih.2]⟩

theorem combineReturns_split (lo hi : List AccountSeries) (h : Splits as bs cs) :
    combineReturns (lo ++ bs :: cs :: hi) = combineReturns (lo ++ as :: hi) := by
  refine combineReturns_congr (times_congr fun t => ?_) fun s t => ?_
  · simp only [CombinedReturns.times, (List.perm_insertionSort _ _).mem_iff, List.mem_dedup, List.flatMap_append,
      List.flatMap_cons, h.times.1, h.times.2, List.mem_append]
    tauto
  · unfold factor mean
    dsimp only
    rw [List.filterMap_append, List.filterMap_append, List.filterMap_cons, List.filterMap_cons, List.filterMap_cons]
    rcases h.holding s t with ⟨ha, hb, hc⟩ | ⟨n, m, r, ha, hb, hc⟩
    · rw [ha, hb, hc]
    · rw [ha, hb, hc]
      simp only [total_append, weighted_append, total_cons, weighted_cons, add_mul, add_assoc]

end Split

section Single

/-- The ratio of an account's index to that at its first point. -/
def ownCurve (first : Point) (points : AccountSeries) : List CurvePoint :=
  points.map fun p => ⟨p.timeMs, p.index / first.index⟩

/-- Whether the index stays wherever an interval starts with nothing held. -/
def StillWhenEmpty (p q : Point) : Prop := p.nav = 0 → q.index = p.index

theorem times_single (h : InOrder points) : times [points] = points.map Point.timeMs := by
  have hsorted : (points.map Point.timeMs).Pairwise (· < ·) := List.pairwise_map.2 h
  have hperm : (times [points]).Perm (points.map Point.timeMs) := by
    unfold times
    rw [List.flatMap_singleton, List.Nodup.dedup (hsorted.imp ne_of_lt)]
    exact List.perm_insertionSort _ _
  exact hperm.eq_of_pairwise' (times_sorted _) (hsorted.imp le_of_lt)

theorem stands_own {p : Point} (hp : p ∈ points) : StandsAt points p.timeMs p := ⟨hp, le_rfl, fun _ _ h => h⟩

theorem factor_single (h : Orderly points) {p q : Point} (hp : p ∈ points) (hq : q ∈ points) :
    factor [points] p.timeMs q.timeMs = if p.nav = 0 then 1 else q.index / p.index := by
  have hheld := holding_eq h (stands_own hp) (stands_own hq)
  unfold factor
  dsimp only
  rw [List.filterMap_cons, hheld, List.filterMap_nil]
  simp only [total, List.map_cons, List.map_nil, List.sum_cons, List.sum_nil, add_zero]
  split_ifs with hpos hzero hzero
  · exact absurd hzero hpos.ne'
  · exact mean_singleton hzero _
  · rfl
  · exact absurd (lt_of_le_of_ne (h.nav p hp) (Ne.symm hzero)) hpos

/-- From a point on where the curve is at the account's own, it stays there just where the index is still whenever
nothing is held. -/
theorem curveFrom_single (h : Orderly points) {first : Point} (hfirst : 0 < first.index) {p : Point} {rest : List Point}
    (hp : p ∈ points) (hrest : ∀ q ∈ rest, q ∈ points) :
    curveFrom [points] (p.index / first.index) p.timeMs (rest.map Point.timeMs) = ownCurve first rest ↔
      (p :: rest).IsChain StillWhenEmpty := by
  induction rest generalizing p with
  | nil => simp [curveFrom, ownCurve]
  | cons q rest ih =>
    obtain ⟨hq, hrest⟩ := List.forall_mem_cons.1 hrest
    have hpos := h.index p hp
    have hstep : p.index / first.index * factor [points] p.timeMs q.timeMs = q.index / first.index ↔
        StillWhenEmpty p q := by
      rw [factor_single h hp hq]
      unfold StillWhenEmpty
      split_ifs with hzero
      · rw [mul_one, div_left_inj' hfirst.ne']
        exact ⟨fun heq _ => heq.symm, fun heq => (heq hzero).symm⟩
      · refine iff_of_true ?_ fun h => absurd h hzero
        field_simp
    rw [List.isChain_cons_cons, ← hstep, ← ih hq hrest, List.map_cons, curveFrom, ownCurve, List.map_cons,
      List.cons.injEq, CurvePoint.mk.injEq, eq_self, true_and]
    exact and_congr_right fun heq => by rw [heq]; rfl

theorem combineReturns_single (first : Point) (rest : List Point) (h : Orderly (first :: rest)) :
    combineReturns [first :: rest] = ownCurve first (first :: rest) ↔ (first :: rest).IsChain StillWhenEmpty := by
  have hfirst := h.index first List.mem_cons_self
  have htimes := times_single h.inOrder
  rw [List.map_cons] at htimes
  rw [combineReturns_eq htimes, ← curveFrom_single h hfirst List.mem_cons_self fun q => List.mem_cons_of_mem first,
    div_self hfirst.ne', ownCurve, List.map_cons, div_self hfirst.ne', List.cons.injEq, eq_self, true_and]
  rfl

end Single

/-- What a combined curve is. -/
structure WeightedAverage (accounts : List AccountSeries) (curve : List CurvePoint) : Prop where
  sorted : curve.Pairwise fun c d => c.timeMs < d.timeMs
  times : ∀ t, t ∈ curve.map CurvePoint.timeMs ↔ ∃ points ∈ accounts, ∃ p ∈ points, p.timeMs = t
  starts : ∀ c, curve.head? = some c → c.growth = 1
  between : curve.IsChain (Between accounts)
  unordered : ∀ accounts', accounts.Perm accounts' → combineReturns accounts' = curve
  split : ∀ lo hi as bs cs, accounts = lo ++ as :: hi → Splits as bs cs →
    combineReturns (lo ++ bs :: cs :: hi) = curve
  single : ∀ first rest, accounts = [first :: rest] →
    (curve = ownCurve first (first :: rest) ↔ (first :: rest).IsChain StillWhenEmpty)

theorem combineReturns_average (accounts : List AccountSeries) (h : ∀ points ∈ accounts, Orderly points) :
    WeightedAverage accounts (combineReturns accounts) where
  sorted := curve_sorted accounts
  times t := by rw [times_combineReturns, mem_times]
  starts _ hc := head_growth hc
  between := curve_between h
  unordered _ hperm := (combineReturns_perm hperm).symm
  split := by
    rintro lo hi as bs cs rfl hsplit
    exact combineReturns_split lo hi hsplit
  single := by
    rintro first rest rfl
    exact combineReturns_single first rest (h _ List.mem_cons_self)

/-- An account that held nothing at first and one that lost half of what it held, weighed against each other. -/
def earlyAndLate : List AccountSeries := [[⟨0, 0, 1⟩, ⟨10, 900, 1⟩, ⟨20, 900, 1⟩], [⟨10, 100, 1⟩, ⟨20, 50, 1 / 2⟩]]

theorem earlyAndLate_average :
    (∀ points ∈ earlyAndLate, Orderly points) ∧ WeightedAverage earlyAndLate (combineReturns earlyAndLate) := by
  have h : ∀ points ∈ earlyAndLate, Orderly points := by
    intro points hpoints
    simp only [earlyAndLate, List.mem_cons, List.not_mem_nil, or_false] at hpoints
    rcases hpoints with rfl | rfl
    · exact ⟨by simp [InOrder], by simp, by simp⟩
    · exact ⟨by simp [InOrder], by simp, by simp⟩
  exact ⟨h, combineReturns_average earlyAndLate h⟩

/-- The index of an account doubles while nothing is held; its curve stays. -/
def emptyAtFirst : AccountSeries := [⟨0, 0, 1⟩, ⟨10, 5, 2⟩]

theorem emptyAtFirst_stands :
    Orderly emptyAtFirst ∧ combineReturns [emptyAtFirst] = [⟨0, 1⟩, ⟨10, 1⟩] ∧
      combineReturns [emptyAtFirst] ≠ ownCurve ⟨0, 0, 1⟩ emptyAtFirst := by
  have hstays : combineReturns [emptyAtFirst] = [⟨0, 1⟩, ⟨10, 1⟩] := by decide +kernel
  refine ⟨⟨by simp [InOrder, emptyAtFirst], by simp [emptyAtFirst], by simp [emptyAtFirst]⟩, hstays, ?_⟩
  rw [hstays]
  simp [ownCurve, emptyAtFirst]

end Laws

end Linvesther.Api.CombinedReturns
