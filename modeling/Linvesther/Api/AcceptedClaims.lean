import Linvesther.Base.JsNumber
import Linvesther.Api.CombinedReturns
import Linvesther.Api.Disclosures

/-! Where the figures of a claim come from: `combinedTrack` writes the win rate with six digits, the statement carries the
text, and `currentMetrics` reads it back for `checkClaims`. -/

namespace Linvesther.Api.AcceptedClaims

open JsNumber CombinedReturns

section Code

/-- What an account's performance says of its closed round trips. -/
structure RoundTrips where
  closedRoundTrips : ℕ
  wins : ℕ
  wins_le : wins ≤ closedRoundTrips
deriving DecidableEq

structure WinRate where
  closedRoundTrips : ℕ
  wins : ℕ
  winRate : String
deriving DecidableEq

/-- What a statement is built from. -/
structure Performance where
  dailyReturns : List String
  maxDrawdown : Option String
  sharpe : Option String
  winRate : Option WinRate
deriving DecidableEq

inductive ShareableMetric where
  | return_ | maxDrawdown | sharpe | winRate
deriving DecidableEq

def SHAREABLE_METRICS : List ShareableMetric := [.return_, .maxDrawdown, .sharpe, .winRate]

structure WinRateMetric where
  value : String
  closedTrades : ℕ
deriving DecidableEq

structure Metrics where
  return_ : Option String
  maxDrawdown : Option String
  sharpe : Option String
  winRate : Option WinRateMetric
deriving DecidableEq

structure BuiltStatement where
  metrics : Metrics
  unavailable : List ShareableMetric
deriving DecidableEq

def wins (performances : List (Option RoundTrips)) : ℕ := (performances.map fun p => (p.map RoundTrips.wins).getD 0).sum

def closed (performances : List (Option RoundTrips)) : ℕ :=
  (performances.map fun p => (p.map RoundTrips.closedRoundTrips).getD 0).sum

/-- The win rate that `combinedTrack` puts together. -/
def combinedWinRate (performances : List (Option RoundTrips)) : Option WinRate :=
  if 0 < closed performances then
    some ⟨closed performances, wins performances, toFixed 6 (wins performances / closed performances)⟩
  else none

/-- A return that is no number makes the whole `NaN`. -/
def compoundedReturn (dailyReturns : List String) : Option String :=
  if dailyReturns = [] then none
  else match dailyReturns.mapM number with
    | none => some "NaN"
    | some returns => some (toFixed 6 (returns.foldl (fun acc r => acc * (1 + r)) 1 - 1))

/-- A metric that cannot be computed yet is left out and reported. -/
def put {α : Type} (metric : ShareableMetric) (set : α → Metrics → Metrics) (built : BuiltStatement) :
    Option α → BuiltStatement
  | none => { built with unavailable := built.unavailable ++ [metric] }
  | some value => { built with metrics := set value built.metrics }

def addMetric (p : Performance) (built : BuiltStatement) : ShareableMetric → BuiltStatement
  | .return_ =>
    put .return_ (fun value m => { m with return_ := some value }) built (compoundedReturn p.dailyReturns)
  | .maxDrawdown => put .maxDrawdown (fun value m => { m with maxDrawdown := some value }) built p.maxDrawdown
  | .sharpe => put .sharpe (fun value m => { m with sharpe := some value }) built p.sharpe
  | .winRate =>
    put .winRate (fun w m => { m with winRate := some ⟨w.winRate, w.closedRoundTrips⟩ }) built p.winRate

/-- The loop over the set of metrics. -/
def buildStatement (share : List ShareableMetric) (p : Performance) : BuiltStatement :=
  share.eraseDups.foldl (addMetric p) ⟨⟨none, none, none, none⟩, []⟩

-- how a number is written, and the Sharpe ratio of a curve, which takes a square root
variable (string : ℚ → String) (sharpe : List CurvePoint → Option ℚ)

def combinedPerformance (curve : List CurvePoint) (performances : List (Option RoundTrips)) : Performance where
  dailyReturns := List.zipWith (fun point before => string (point.growth / before.growth - 1)) curve.tail curve
  maxDrawdown := if 1 < curve.length then some (toFixed 6 (CombinedReturns.maxDrawdown curve)) else none
  sharpe := (sharpe curve).map (toFixed 6)
  winRate := combinedWinRate performances

/-- `combinedTrack`, once the performances and the series of all accounts are there. -/
def combinedTrack (performances : List (Option RoundTrips)) (series : List AccountSeries) : Option BuiltStatement :=
  if performances = [] then none
  else some (buildStatement SHAREABLE_METRICS (combinedPerformance string sharpe (combineReturns series) performances))

def metricsOf (m : Metrics) : ClaimMetrics := fun metric =>
  if metric = "return" then m.return_.bind number
  else if metric = "maxDrawdown" then m.maxDrawdown.bind number
  else if metric = "sharpe" then m.sharpe.bind number
  else if metric = "winRate" then m.winRate.bind fun w => number w.value
  else none

def currentMetrics (performances : List (Option RoundTrips)) (series : List AccountSeries) : Option ClaimMetrics :=
  (combinedTrack string sharpe performances series).map fun track => metricsOf track.metrics

end Code

section Accepted

variable (string : ℚ → String) (sharpe : List CurvePoint → Option ℚ)
variable {performances : List (Option RoundTrips)} {series : List AccountSeries}

def exactWinRate (performances : List (Option RoundTrips)) : ℚ := wins performances / closed performances

theorem wins_le_closed (performances : List (Option RoundTrips)) : wins performances ≤ closed performances := by
  unfold wins closed
  refine List.sum_le_sum fun p _ => ?_
  cases p with
  | none => exact le_rfl
  | some trips => exact trips.wins_le

/-- A win rate with six digits, in the middle upwards. -/
def rounded (x : ℚ) : ℚ := ⌊x * 10 ^ 6 + 1 / 2⌋ / 10 ^ 6

theorem winRate_buildStatement (p : Performance) :
    (buildStatement SHAREABLE_METRICS p).metrics.winRate = p.winRate.map fun w => ⟨w.winRate, w.closedRoundTrips⟩ := by
  have hshare : SHAREABLE_METRICS.eraseDups = SHAREABLE_METRICS := by decide
  unfold buildStatement
  rw [hshare]
  simp only [SHAREABLE_METRICS, List.foldl_cons, List.foldl_nil, addMetric, put]
  cases compoundedReturn p.dailyReturns <;> cases p.maxDrawdown <;> cases p.sharpe <;> cases p.winRate <;> rfl

theorem metricsOf_winRate (m : Metrics) : metricsOf m "winRate" = m.winRate.bind fun w => number w.value := by
  unfold metricsOf
  rw [if_neg (by decide), if_neg (by decide), if_neg (by decide), if_pos rfl]

/-- What a claim on the win rate is compared with: there is a figure once a round trip is closed. -/
theorem currentMetrics_winRate {metrics : ClaimMetrics}
    (h : currentMetrics string sharpe performances series = some metrics) :
    metrics "winRate" = if closed performances = 0 then none else some (rounded (exactWinRate performances)) := by
  unfold currentMetrics combinedTrack at h
  by_cases hnil : performances = []
  · rw [if_pos hnil] at h
    cases h
  rw [if_neg hnil] at h
  obtain rfl := Option.some.inj h
  change metricsOf _ "winRate" = _
  rw [metricsOf_winRate, winRate_buildStatement]
  change ((combinedWinRate performances).map _).bind _ = _
  unfold combinedWinRate
  split_ifs with hpos hzero hzero
  · omega
  · have hle : exactWinRate performances ≤ 1 :=
      div_le_one_of_le₀ (by exact_mod_cast wins_le_closed performances) (Nat.cast_nonneg _)
    have hnonneg : 0 ≤ exactWinRate performances := div_nonneg (Nat.cast_nonneg _) (Nat.cast_nonneg _)
    refine number_toFixed 6 hnonneg (lt_of_le_of_lt (add_le_add_left hle 1) ?_)
    decide +kernel
  · rfl
  · omega

theorem currentMetrics_isSome (h : closed performances ≠ 0) :
    ∃ metrics, currentMetrics string sharpe performances series = some metrics := by
  unfold currentMetrics combinedTrack
  have hne : performances ≠ [] := fun hnil => h (hnil ▸ rfl)
  rw [if_neg hne]
  exact ⟨_, rfl⟩

/-- The exact figure is on the wrong side of a threshold, within half of the sixth decimal of it. -/
def Misread (type : Comparison) (x threshold : ℚ) : Prop :=
  match type with
  | .GE => (⌈threshold * 10 ^ 6⌉ - 1 / 2) / 10 ^ 6 ≤ x ∧ x < threshold
  | .GT => (⌊threshold * 10 ^ 6⌋ + 1 / 2) / 10 ^ 6 ≤ x ∧ x ≤ threshold
  | .LE => threshold < x ∧ x < (⌊threshold * 10 ^ 6⌋ + 1 / 2) / 10 ^ 6
  | .LT => threshold ≤ x ∧ x < (⌈threshold * 10 ^ 6⌉ - 1 / 2) / 10 ^ 6

theorem le_rounded_iff (x t : ℚ) : t ≤ rounded x ↔ (⌈t * 10 ^ 6⌉ - 1 / 2) / 10 ^ 6 ≤ x := by
  unfold rounded
  rw [le_div_iff₀ (by norm_num), div_le_iff₀ (by norm_num), sub_le_iff_le_add, ← Int.le_floor, ← Int.ceil_le]

theorem lt_rounded_iff (x t : ℚ) : t < rounded x ↔ (⌊t * 10 ^ 6⌋ + 1 / 2) / 10 ^ 6 ≤ x := by
  have hhalf : (⌊t * 10 ^ 6⌋ : ℚ) + 1 / 2 ≤ x * 10 ^ 6 ↔ ((⌊t * 10 ^ 6⌋ + 1 : ℤ) : ℚ) ≤ x * 10 ^ 6 + 1 / 2 := by
    push_cast
    constructor <;> intro h <;> linarith
  unfold rounded
  rw [lt_div_iff₀ (by norm_num), div_le_iff₀ (by norm_num), hhalf, ← Int.le_floor, Int.add_one_le_iff, ← Int.floor_lt]

/-- The rounded figure meets a claim that the exact one does not, just where it is misread. -/
theorem misread_iff (type : Comparison) (x t : ℚ) :
    Misread type x t ↔ Api.compare type (rounded x) t = true ∧ ¬ Api.compare type x t = true := by
  cases type with
  | GE => simp only [Misread, Api.compare, decide_eq_true_eq, le_rounded_iff, not_le]
  | GT => simp only [Misread, Api.compare, decide_eq_true_eq, lt_rounded_iff, not_lt]
  | LE =>
    simp only [Misread, Api.compare, decide_eq_true_eq, not_le]
    rw [← not_lt (a := t), lt_rounded_iff, not_le, and_comm]
  | LT =>
    simp only [Misread, Api.compare, decide_eq_true_eq, not_lt]
    rw [← not_le (a := t), le_rounded_iff, not_le, and_comm]

theorem checkClaims_mem {metrics : ClaimMetrics} {claims : List ClaimPredicate} {claim : ClaimPredicate}
    (hmem : claim ∈ claims) (h : checkClaims number claims metrics = none) : checkClaim number metrics claim = none := by
  unfold checkClaims at h
  split_ifs at h
  exact List.findSome?_eq_none_iff.1 h claim hmem

theorem checkClaims_single {metrics : ClaimMetrics} (claim : ClaimPredicate) :
    checkClaims number [claim] metrics = checkClaim number metrics claim := by
  unfold checkClaims
  rw [if_neg (List.cons_ne_nil _ _), List.findSome?_cons, List.findSome?_nil]
  cases checkClaim number metrics claim <;> rfl

/-- A claim on the win rate is accepted where the rounded figure meets it. -/
theorem checkClaim_winRate {metrics : ClaimMetrics} (h : currentMetrics string sharpe performances series = some metrics)
    (type : Comparison) (threshold : String) :
    checkClaim number metrics (.compare type "winRate" threshold) = none ↔
      closed performances ≠ 0 ∧ ∃ t, number threshold = some t ∧
        Api.compare type (rounded (exactWinRate performances)) t = true := by
  unfold checkClaim
  dsimp only
  rw [currentMetrics_winRate string sharpe h]
  by_cases hzero : closed performances = 0
  · rw [if_pos hzero]
    exact iff_of_false (by simp) fun h => h.1 hzero
  · rw [if_neg hzero]
    cases number threshold with
    | none => simp
    | some t => simp [hzero]

/-- Two of three round trips were won. -/
def twoOfThree : List (Option RoundTrips) := [some ⟨3, 2, by decide⟩]

end Accepted

end Linvesther.Api.AcceptedClaims
