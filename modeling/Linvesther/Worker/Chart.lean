import Linvesther.Worker.Reconciliation

/-! The chart of an account and its performance figures: two walks over one reconstruction, on two grids of time and with
two sources of prices. Where prices are exact they tell the same value and the same return at every instant that both
visit. -/

namespace Linvesther.Worker

open Transaction Domain

section Candles

structure RawCandle where
  openTimeMs : ℕ
  closePrice : String
  closeTimeMs : ℕ
deriving DecidableEq

/-- A market that also serves candles: of a symbol, of a size, from a time to a time. -/
structure ChartMarket extends MarketData where
  fetchCandlesSpan : String → ℕ → ℕ → ℕ → Except MarketError (List RawCandle)

def SERIES_STEPS_MS : List ℕ := [60000, 300000, 900000, 1800000, 3600000, 7200000, 86400000]

variable (lib : Decimals)

/-- The close of the last candle that had closed by then; now it is that of the newest candle. -/
def priceAt (candles : List RawCandle) (atMs : ℕ) (isNow : Bool) : Option ℚ := do
  let candle ← if isNow then candles.getLast? else candles.reverse.find? fun c => c.closeTimeMs ≤ atMs
  lib.fromStr candle.closePrice

end Candles

section Series

inductive SeriesRange where
  | day
  | week
  | month
  | year
  | fiveYears
  | max
deriving DecidableEq

def SeriesRange.windowMs : SeriesRange → Option ℕ
  | .day => some DAY_MS
  | .week => some (7 * DAY_MS)
  | .month => some (30 * DAY_MS)
  | .year => some (365 * DAY_MS)
  | .fiveYears => some (5 * 365 * DAY_MS)
  | .max => none

def stepFor (range : SeriesRange) (spanMs : ℕ) : ℕ :=
  match range with
  | .day => 300000
  | .week => 1800000
  | .month => 7200000
  | .year => DAY_MS
  | .fiveYears => DAY_MS
  | .max => (SERIES_STEPS_MS.find? fun step => spanMs / step ≤ 400).getD DAY_MS

/-- The loop over the steps before `nowMs`; each turn moves on, so `nowMs` turns are enough. -/
def stepsBefore (nowMs stepMs : ℕ) : ℕ → ℕ → List ℕ
  | 0, _ => []
  | turns + 1, t => if t < nowMs then t :: stepsBefore nowMs stepMs turns (t + stepMs) else []

def grid (startMs stepMs nowMs : ℕ) : List ℕ :=
  let points := startMs :: stepsBefore nowMs stepMs nowMs ((startMs / stepMs + 1) * stepMs)
  if startMs < nowMs then points ++ [nowMs] else points

structure SeriesPoint where
  timeMs : ℕ
  nav : ℚ
  index : ℚ
deriving DecidableEq

structure SeriesResult where
  points : List SeriesPoint
  stepMs : ℕ
deriving DecidableEq

variable (lib : Decimals) (client : ChartMarket)

/-- The assets that are held at a point and are not the quote currency. -/
def heldAssets (quantities : List (String × ℚ)) : List String :=
  (quantities.filter fun q => q.2 ≠ 0 ∧ q.1 ≠ client.quoteCurrency).map Prod.fst

/-- A point of the grid: its place, whether it is now, its time and the quantities there. -/
structure GridPoint where
  index : ℕ
  isNow : Bool
  atMs : ℕ
  quantities : List (String × ℚ)

def gridPoints (times : List ℕ) (quantities : List (List (String × ℚ))) : List GridPoint :=
  (times.zip quantities).zipIdx.map fun p => ⟨p.2, p.2 = times.length - 1 ∧ 0 < p.2, p.1.1, p.1.2⟩

/-- The price of a holding at a point. The maps have an entry for every asset that is asked for. -/
def seriesPrice (candles : List (String × List RawCandle)) (firstPrices : List (String × ℚ)) (point : GridPoint)
    (asset : String) : Except HistoryError ℚ :=
  if asset = client.quoteCurrency then .ok 1
  else if point.index = 0 then .ok ((firstPrices.lookup asset).getD 0)
  else
    match priceAt lib ((candles.lookup asset).getD []) point.atMs point.isNow with
    | some price => .ok price
    | none => .error (.valuation (.unsupportedAsset (asset ++ ": no candle at " ++ Nat.repr point.atMs)))

def seriesNav (candles : List (String × List RawCandle)) (firstPrices : List (String × ℚ)) (point : GridPoint) :
    Except HistoryError DailyNav := do
  let values ← (point.quantities.filter fun q => q.2 ≠ 0).mapM fun q => do
    let price ← seriesPrice lib client candles firstPrices point q.1
    pure (q.2 * price)
  pure ⟨point.atMs, values.sum⟩

/-- The index after each return; where there are no more returns it stays. -/
def seriesFrom : ℚ → List DailyNav → List ℚ → List SeriesPoint
  | _, [], _ => []
  | index, point :: points, [] => ⟨point.dayStartMs, point.nav, index⟩ :: seriesFrom index points []
  | index, point :: points, r :: rs =>
    ⟨point.dayStartMs, point.nav, index * (1 + r)⟩ :: seriesFrom (index * (1 + r)) points rs

def seriesOf : List DailyNav → List ℚ → List SeriesPoint
  | [], _ => []
  | first :: rest, subReturns => ⟨first.dayStartMs, first.nav, 1⟩ :: seriesFrom 1 rest subReturns

def computeSeries (allTrades : List Trade) (allFlows : List NormalizedFlow) (sinceMs nowMs : ℕ) (range : SeriesRange) :
    Except HistoryError SeriesResult := do
  let p ← prepare lib client.toMarketData allTrades allFlows sinceMs
  let startMs := (range.windowMs.map fun window => Max.max (nowMs - window) sinceMs).getD sinceMs
  let stepMs := stepFor range (nowMs - startMs)
  let times := grid startMs stepMs nowMs
  let quantities ← times.mapM fun atMs => quantitiesAt atMs nowMs p.currentBalances p.deltas
  let assets := (Std.TreeSet.ofList (quantities.flatMap (heldAssets client))).toList
  let candles ← assets.mapM fun asset => do
    let candles ← (client.fetchCandlesSpan (client.marketSymbol asset) stepMs (startMs - 2 * stepMs) nowMs).mapError
      .market
    pure (asset, candles)
  let firstPrices ← (heldAssets client (quantities.headD [])).mapM fun asset => do
    let price ← (resolveHistoricalPrice client.toMarketData asset startMs).mapError .publish
    pure (asset, price)
  let points ← (gridPoints times quantities).mapM (seriesNav lib client candles firstPrices)
  let flows ← (p.flows.filter fun f => startMs ≤ f.economicTimeMs.toNat ∧ f.isExternal = true).mapM
    (priceFlow lib client.toMarketData)
  let twr ← (computeTwr (timelineOf points flows)).mapError .return_
  pure { points := seriesOf points twr.subReturns, stepMs }

end Series

section Grid

variable {startMs stepMs nowMs : ℕ}

theorem mem_stepsBefore {turns t cut : ℕ} (h : cut ∈ stepsBefore nowMs stepMs turns t) :
    t ≤ cut ∧ cut < nowMs ∧ (stepMs ∣ t → stepMs ∣ cut) := by
  induction turns generalizing t with
  | zero => cases h
  | succ turns ih =>
    unfold stepsBefore at h
    split_ifs at h with hlt
    · rcases List.mem_cons.1 h with rfl | hrest
      · exact ⟨le_rfl, hlt, id⟩
      · obtain ⟨hle, hnow, hdvd⟩ := ih hrest
        exact ⟨by omega, hnow, fun ht => hdvd (Nat.dvd_add_self_right.2 ht)⟩
    · cases h

theorem pairwise_stepsBefore (hstep : 0 < stepMs) (turns t : ℕ) :
    (stepsBefore nowMs stepMs turns t).Pairwise (· < ·) := by
  induction turns generalizing t with
  | zero => exact .nil
  | succ turns ih =>
    unfold stepsBefore
    split_ifs
    · refine List.pairwise_cons.2 ⟨fun cut hcut => ?_, ih _⟩
      have hle := (mem_stepsBefore hcut).1
      omega
    · exact .nil

theorem dayStarts_eq (nowMs turns t : ℕ) : dayStarts nowMs turns t = stepsBefore nowMs DAY_MS turns t := by
  induction turns generalizing t with
  | zero => rfl
  | succ turns ih =>
    unfold dayStarts stepsBefore
    rw [ih]

/-- The points between the ends. -/
def interior (startMs stepMs nowMs : ℕ) : List ℕ := stepsBefore nowMs stepMs nowMs ((startMs / stepMs + 1) * stepMs)

theorem mem_interior (hstep : 0 < stepMs) {cut : ℕ} (h : cut ∈ interior startMs stepMs nowMs) :
    startMs < cut ∧ cut < nowMs ∧ stepMs ∣ cut := by
  obtain ⟨hle, hlt, hdvd⟩ := mem_stepsBefore h
  have hnext : startMs < (startMs / stepMs + 1) * stepMs := Nat.lt_mul_of_div_lt (Nat.lt_succ_self _) hstep
  exact ⟨by omega, hlt, hdvd (Nat.dvd_mul_left _ _)⟩

theorem interior_eq_nil (hstep : 0 < stepMs) (h : ¬ startMs < nowMs) : interior startMs stepMs nowMs = [] := by
  refine List.eq_nil_iff_forall_not_mem.2 fun cut hcut => ?_
  obtain ⟨hlo, hhi, -⟩ := mem_interior hstep hcut
  omega

theorem grid_eq (hstep : 0 < stepMs) :
    grid startMs stepMs nowMs =
      if startMs < nowMs then startMs :: (interior startMs stepMs nowMs ++ [nowMs]) else [startMs] := by
  unfold grid
  dsimp only
  split_ifs with hlt
  · rfl
  · rw [← interior, interior_eq_nil hstep hlt]

theorem pairwise_ends {times : List ℕ} (hsorted : times.Pairwise (· < ·))
    (hbetween : ∀ t ∈ times, startMs < t ∧ t < nowMs) (hlt : startMs < nowMs) :
    (startMs :: (times ++ [nowMs])).Pairwise (· < ·) := by
  refine List.pairwise_cons.2 ⟨fun t ht => ?_, List.pairwise_append.2 ⟨hsorted, List.pairwise_singleton _ _, ?_⟩⟩
  · rcases List.mem_append.1 ht with hin | hin
    · exact (hbetween t hin).1
    · rw [List.mem_singleton.1 hin]
      exact hlt
  · intro t ht now hnow
    rw [List.mem_singleton.1 hnow]
    exact (hbetween t ht).2

theorem pairwise_grid (hstep : 0 < stepMs) : (grid startMs stepMs nowMs).Pairwise (· < ·) := by
  rw [grid_eq hstep]
  split_ifs with hlt
  · refine pairwise_ends (pairwise_stepsBefore hstep _ _) (fun t ht => ?_) hlt
    obtain ⟨hlo, hhi, -⟩ := mem_interior hstep ht
    exact ⟨hlo, hhi⟩
  · exact List.pairwise_singleton _ _

/-- The checkpoints are the grid of the days. -/
theorem checkpoints_eq (sinceMs nowMs : ℕ) : checkpoints sinceMs nowMs = grid sinceMs DAY_MS nowMs := by
  have hday : 0 < DAY_MS := by decide
  have hinterior : dayStarts nowMs nowMs ((sinceMs / DAY_MS + 1) * DAY_MS) = interior sinceMs DAY_MS nowMs :=
    dayStarts_eq _ _ _
  rw [grid_eq hday]
  unfold checkpoints
  dsimp only
  rw [hinterior]
  by_cases hlt : sinceMs < nowMs
  · -- every cut before is earlier than now
    have hlast : (sinceMs :: interior sinceMs DAY_MS nowMs).getLast? ≠ some nowMs := by
      intro heq
      rcases List.mem_cons.1 (List.mem_of_getLast? heq) with rfl | hin
      · exact absurd hlt (lt_irrefl _)
      · exact absurd (mem_interior hday hin).2.1 (lt_irrefl _)
    rw [if_pos ⟨hlast, hlt⟩, if_pos hlt]
    rfl
  · rw [if_neg fun h => hlt h.2, if_neg hlt, interior_eq_nil hday hlt]

/-- By its place a point after the first is now, or a step between. -/
theorem grid_getElem? (hstep : 0 < stepMs) {i t : ℕ} (h : (grid startMs stepMs nowMs)[i]? = some t) (hi : 0 < i) :
    (i = (grid startMs stepMs nowMs).length - 1 → t = nowMs) ∧
      (i ≠ (grid startMs stepMs nowMs).length - 1 → startMs < t ∧ t < nowMs ∧ stepMs ∣ t) := by
  obtain ⟨j, rfl⟩ : ∃ j, i = j + 1 := ⟨i - 1, by omega⟩
  rw [grid_eq hstep] at h ⊢
  split_ifs at h ⊢ with hlt
  · rw [List.getElem?_cons_succ] at h
    simp only [List.length_cons, List.length_append, List.length_nil]
    rcases lt_or_ge j (interior startMs stepMs nowMs).length with hj | hj
    · rw [List.getElem?_append_left hj] at h
      obtain ⟨hlo, hhi, hdvd⟩ := mem_interior hstep (List.mem_of_getElem? h)
      exact ⟨fun heq => by omega, fun _ => ⟨hlo, hhi, hdvd⟩⟩
    · rw [List.getElem?_append_right hj, List.getElem?_singleton] at h
      split_ifs at h with hzero
      exact ⟨fun _ => (Option.some.inj h).symm, fun hne => by omega⟩
  · simp at h

end Grid

section Returns

/-- What each value has grown by since the one before. -/
def growths : ℚ → List DailyNav → List ℚ
  | _, [] => []
  | v, d :: rest => (d.nav / v - 1) :: growths d.nav rest

/-- Every value but the last is more than nothing. -/
def Grows : ℚ → List DailyNav → Prop
  | _, [] => True
  | v, d :: rest => 0 < v ∧ Grows d.nav rest

theorem Grows.pos {navs : List DailyNav} {v : ℚ} (h : Grows v navs) {d : DailyNav} (hd : d ∈ navs) : 0 < v := by
  cases navs with
  | nil => cases hd
  | cons _ _ => exact h.1

theorem foldlM_valuations {navs : List DailyNav} {s s' : TwrState} {v : ℚ} (hv : s.currentNav = some v)
    (h : (navs.map fun d => TimelineEvent.valuation d.dayStartMs d.nav).foldlM twrStep s = .ok s') :
    s'.subReturns = s.subReturns ++ growths v navs ∧ Grows v navs := by
  induction navs generalizing s v with
  | nil =>
    rw [List.map_nil, List.foldlM_nil, pure_ok] at h
    rw [← h, growths, List.append_nil]
    exact ⟨rfl, trivial⟩
  | cons d navs ih =>
    rw [List.map_cons, List.foldlM_cons, bind_ok] at h
    obtain ⟨s₁, hstep, hrest⟩ := h
    rw [twrStep, hv] at hstep
    dsimp only at hstep
    split_ifs at hstep with hpositive
    rw [Except.ok.injEq] at hstep
    subst hstep
    obtain ⟨hreturns, hgrows⟩ := ih rfl hrest
    refine ⟨?_, not_le.1 hpositive, hgrows⟩
    rw [hreturns, List.append_assoc]
    rfl

/-- Without flows the returns are the growths of the values, in the order of time. -/
theorem computeTwr_valuations {first : DailyNav} {rest : List DailyNav} {twr : TwrResult}
    (hsorted : (first :: rest).Pairwise fun a b => a.dayStartMs < b.dayStartMs)
    (h : computeTwr (timelineOf (first :: rest) []) = .ok twr) :
    twr.subReturns = growths first.nav rest ∧ Grows first.nav rest := by
  have htimeline : timelineOf (first :: rest) [] =
      (first :: rest).map fun d => TimelineEvent.valuation d.dayStartMs d.nav := by
    unfold timelineOf
    rw [List.map_nil, List.append_nil]
    refine List.Pairwise.insertionSort_eq (List.pairwise_map.2 (hsorted.imp fun {a b} hlt => ?_))
    exact hlt.le
  rw [htimeline, List.map_cons] at h
  simp only [computeTwr, bind_ok, pure_ok, List.foldlM_cons] at h
  obtain ⟨s', ⟨s₁, hstep, hrest⟩, rfl⟩ := h
  rw [twrStep, TwrState.init, Except.ok.injEq] at hstep
  subst hstep
  exact foldlM_valuations rfl hrest

theorem growth_trans {navs : List DailyNav} {d d' : DailyNav} (h : Grows d.nav navs) (hd' : d' ∈ navs) (index v : ℚ) :
    index * (d.nav / v) * (d'.nav / d.nav) = index * (d'.nav / v) := by
  have hd := h.pos hd'
  field_simp

/-- Chained, the growths are what a value is of the first. -/
theorem indexFrom_growths {navs : List DailyNav} {v : ℚ} (h : Grows v navs) (index : ℚ) :
    indexFrom index (navs.zip (growths v navs)) = navs.map fun d => ⟨d.dayStartMs, index * (d.nav / v)⟩ := by
  induction navs generalizing v index with
  | nil => rfl
  | cons d navs ih =>
    obtain ⟨hv, hrest⟩ := h
    rw [growths, List.zip_cons_cons, indexFrom, ih hrest, List.map_cons, add_sub_cancel]
    congr 1
    exact List.map_congr_left fun d' hd' => by rw [growth_trans hrest hd']

theorem seriesFrom_growths {navs : List DailyNav} {v : ℚ} (h : Grows v navs) (index : ℚ) :
    seriesFrom index navs (growths v navs) = navs.map fun d => ⟨d.dayStartMs, d.nav, index * (d.nav / v)⟩ := by
  induction navs generalizing v index with
  | nil => rfl
  | cons d navs ih =>
    obtain ⟨hv, hrest⟩ := h
    rw [growths, seriesFrom, ih hrest, List.map_cons, add_sub_cancel]
    congr 1
    exact List.map_congr_left fun d' hd' => by rw [growth_trans hrest hd']

/-- The index at a time, of a walk of values that begins at the connection. -/
def indexAt (value : ℕ → ℚ) (sinceMs t : ℕ) : ℚ := if t = sinceMs then 1 else value t / value sinceMs

theorem indexAt_mul {value : ℕ → ℚ} {sinceMs t : ℕ} {rest : List ℕ} (hsorted : (sinceMs :: rest).Pairwise (· < ·))
    (hpositive : ∀ t ∈ rest, 0 < value sinceMs) (ht : t ∈ sinceMs :: rest) :
    indexAt value sinceMs t * value sinceMs = value t := by
  unfold indexAt
  rcases List.mem_cons.1 ht with rfl | hin
  · rw [if_pos rfl, one_mul]
  · rw [if_neg ((List.pairwise_cons.1 hsorted).1 t hin).ne', div_mul_cancel₀ _ (hpositive t hin).ne']

/-- Over any times from the connection on, the chained returns are the values over the first. -/
theorem index_walk {value : ℕ → ℚ} {sinceMs : ℕ} {rest : List ℕ} {twr : TwrResult}
    (hsorted : (sinceMs :: rest).Pairwise (· < ·))
    (h : computeTwr (timelineOf ((sinceMs :: rest).map fun t => ⟨t, value t⟩) []) = .ok twr) :
    twrIndexOf ((sinceMs :: rest).map fun t => ⟨t, value t⟩) twr.subReturns =
        (sinceMs :: rest).map (fun t => ⟨t, indexAt value sinceMs t⟩) ∧
      seriesOf ((sinceMs :: rest).map fun t => ⟨t, value t⟩) twr.subReturns =
        (sinceMs :: rest).map (fun t => ⟨t, value t, indexAt value sinceMs t⟩) ∧
      ∀ t ∈ rest, 0 < value sinceMs := by
  have hlater : ∀ t ∈ rest, indexAt value sinceMs t = 1 * (value t / value sinceMs) := by
    intro t ht
    rw [indexAt, if_neg ((List.pairwise_cons.1 hsorted).1 t ht).ne', one_mul]
  have hfirst : indexAt value sinceMs sinceMs = 1 := if_pos rfl
  rw [List.map_cons] at h ⊢
  have hdays : ((⟨sinceMs, value sinceMs⟩ : DailyNav) :: rest.map fun t => ⟨t, value t⟩).Pairwise
      fun a b => a.dayStartMs < b.dayStartMs := by
    rw [← List.map_cons (f := fun t => (⟨t, value t⟩ : DailyNav)), List.pairwise_map]
    exact hsorted
  obtain ⟨hreturns, hgrows⟩ := computeTwr_valuations hdays h
  rw [twrIndexOf, seriesOf, hreturns, indexFrom_growths hgrows, seriesFrom_growths hgrows, List.map_map, List.map_map,
    List.map_cons, List.map_cons, hfirst]
  refine ⟨?_, ?_, fun t ht => hgrows.pos (List.mem_map_of_mem ht)⟩
  · congr 1
    refine List.map_congr_left fun t ht => ?_
    rw [hlater t ht]
    rfl
  · congr 1
    refine List.map_congr_left fun t ht => ?_
    rw [hlater t ht]
    rfl

end Returns

section Values

variable {lib : Decimals} {client : ChartMarket} {price : String → ℕ → ℚ} {p : Prepared} {sinceMs nowMs : ℕ}

/-- What the account was worth at a time, by what is reconstructed of it. -/
def reconstructedValue (client : MarketData) (price : String → ℕ → ℚ) (p : Prepared) (nowMs atMs : ℕ) : ℚ :=
  (p.currentBalances.toList.map fun b => (b.2.1 + b.2.2 +
    (addedUp (p.deltas.getD b.1 []) atMs - addedUp (p.deltas.getD b.1 []) nowMs)) *
      worthAt client price b.1 atMs).sum

theorem reconstructedValue_eq {client : MarketData} {atMs : ℕ} {quantities : List (String × ℚ)}
    (h : quantitiesAt atMs nowMs p.currentBalances p.deltas = .ok quantities) :
    (quantities.map fun q => q.2 * worthAt client price q.1 atMs).sum =
      reconstructedValue client price p nowMs atMs := by
  rw [quantitiesAt_ok h, List.map_map]
  rfl

/-- The values of the performance figures. -/
theorem dailyNavOf_eq {client : MarketData} (hprices : PricedBy client price) {v : Valued}
    (hv : valueCheckpoints lib client p sinceMs nowMs = .ok v) :
    dailyNavOf (checkpoints sinceMs nowMs) v.holdings =
      (checkpoints sinceMs nowMs).map fun t => ⟨t, reconstructedValue client price p nowMs t⟩ := by
  refine List.ext_getElem? fun i => ?_
  rw [List.getElem?_map]
  cases hcut : (checkpoints sinceMs nowMs)[i]? with
  | some cut =>
    obtain ⟨quantities, holdings, -, -, hquantities, hholdings, hnav⟩ := valueCheckpoints_getElem? hv hcut
    rw [hnav, navOf_eq (hprices.at cut) le_rfl le_rfl hholdings, Option.map_some, ← reconstructedValue_eq hquantities]
    rfl
  | none =>
    have hlength : (dailyNavOf (checkpoints sinceMs nowMs) v.holdings).length ≤ (checkpoints sinceMs nowMs).length := by
      unfold dailyNavOf
      rw [List.length_map, List.length_zip]
      exact min_le_left _ _
    rw [List.getElem?_eq_none (hlength.trans (List.getElem?_eq_none_iff.1 hcut))]
    rfl

variable (lib client price nowMs) in
/-- Candles that report a price function: on a step the last closed one has the price there, and the newest one has the
price of now. -/
def CandlesReport : Prop :=
  ∀ asset stepMs startMs candles, stepMs ∈ SERIES_STEPS_MS →
    client.fetchCandlesSpan (client.marketSymbol asset) stepMs startMs nowMs = .ok candles →
      (∀ atMs r, stepMs ∣ atMs → startMs + stepMs ≤ atMs → atMs < nowMs → priceAt lib candles atMs false = some r →
        r = price asset atMs) ∧
      ∀ r, priceAt lib candles nowMs true = some r → r = price asset nowMs

/-- Every range is drawn at a size that candles come in. -/
theorem stepFor_mem (range : SeriesRange) (spanMs : ℕ) : stepFor range spanMs ∈ SERIES_STEPS_MS := by
  cases range with
  | max =>
    unfold stepFor
    dsimp only
    cases hstep : SERIES_STEPS_MS.find? fun step => spanMs / step ≤ 400 with
    | some step => exact List.mem_of_find?_eq_some hstep
    | none => decide
  | _ => simp [stepFor, SERIES_STEPS_MS, DAY_MS]

theorem step_pos {stepMs : ℕ} (h : stepMs ∈ SERIES_STEPS_MS) : 0 < stepMs := by
  have hall : ∀ step ∈ SERIES_STEPS_MS, 0 < step := by decide
  exact hall stepMs h

theorem gridPoints_getElem? {times : List ℕ} {quantities : List (List (String × ℚ))} {i t : ℕ}
    {q : List (String × ℚ)} (ht : times[i]? = some t) (hq : quantities[i]? = some q) :
    (gridPoints times quantities)[i]? = some ⟨i, i = times.length - 1 ∧ 0 < i, t, q⟩ := by
  have hzip : (times.zip quantities)[i]? = some (t, q) := List.getElem?_zip_eq_some.2 ⟨ht, hq⟩
  unfold gridPoints
  rw [List.getElem?_map, List.getElem?_zipIdx, hzip]
  simp

/-- A point whose prices are those of the time has the value of the quantities there. -/
theorem seriesNav_ok {candles : List (String × List RawCandle)} {firstPrices : List (String × ℚ)} {point : GridPoint}
    {d : DailyNav}
    (hpriced : ∀ q ∈ point.quantities, q.2 ≠ 0 → ∀ r, seriesPrice lib client candles firstPrices point q.1 = .ok r →
      r = worthAt client.toMarketData price q.1 point.atMs)
    (h : seriesNav lib client candles firstPrices point = .ok d) :
    d = ⟨point.atMs, (point.quantities.map fun q => q.2 * worthAt client.toMarketData price q.1 point.atMs).sum⟩ := by
  simp only [seriesNav, bind_ok, pure_ok] at h
  obtain ⟨values, hvalues, rfl⟩ := h
  have hmap : values = (point.quantities.filter fun q => q.2 ≠ 0).map fun q =>
      q.2 * worthAt client.toMarketData price q.1 point.atMs := by
    refine mapM_map (fun q hq v hv => ?_) hvalues
    simp only [bind_ok, pure_ok] at hv
    obtain ⟨r, hr, rfl⟩ := hv
    obtain ⟨hin, hne⟩ := List.mem_filter.1 hq
    rw [hpriced q hin (of_decide_eq_true hne) r hr]
  rw [hmap, sum_nonzero point.quantities fun asset => worthAt client.toMarketData price asset point.atMs]

/-- The prices of a point of the chart are those of the market there. -/
theorem seriesPrice_ok (hprices : PricedBy client.toMarketData price) (hcandles : CandlesReport lib client price nowMs)
    {stepMs : ℕ} (hstep : stepMs ∈ SERIES_STEPS_MS) {i t : ℕ} (ht : (grid sinceMs stepMs nowMs)[i]? = some t)
    {candles : List (String × List RawCandle)} {firstPrices : List (String × ℚ)} {q : List (String × ℚ)}
    {asset : String} (hasset : asset ≠ client.quoteCurrency)
    (hfirst : i = 0 → ∃ r, firstPrices.lookup asset = some r ∧
      (resolveHistoricalPrice client.toMarketData asset sinceMs).mapError HistoryError.publish = .ok r)
    (hfetched : ∃ cs, candles.lookup asset = some cs ∧
      (client.fetchCandlesSpan (client.marketSymbol asset) stepMs (sinceMs - 2 * stepMs) nowMs).mapError
        HistoryError.market = .ok cs) {r : ℚ}
    (h : seriesPrice lib client candles firstPrices
      ⟨i, i = (grid sinceMs stepMs nowMs).length - 1 ∧ 0 < i, t, q⟩ asset = .ok r) :
    r = worthAt client.toMarketData price asset t := by
  have hpos := step_pos hstep
  unfold seriesPrice at h
  rw [if_neg hasset] at h
  dsimp only at h
  split_ifs at h with hzero
  · obtain ⟨r', hlookup, hresolved⟩ := hfirst hzero
    have htime : t = sinceMs := by
      rw [hzero, grid_eq hpos] at ht
      split_ifs at ht <;> simpa [eq_comm] using ht
    rw [hlookup] at h
    rw [mapError_ok] at hresolved
    rw [htime, ← hprices.resolved hresolved]
    exact (Except.ok.inj h).symm
  · obtain ⟨cs, hlookup, hcs⟩ := hfetched
    rw [mapError_ok] at hcs
    obtain ⟨hclosed, hnewest⟩ := hcandles asset stepMs _ cs hstep hcs
    obtain ⟨hlast, hbetween⟩ := grid_getElem? hpos ht (Nat.pos_of_ne_zero hzero)
    rw [hlookup, Option.getD_some] at h
    have hworth : worthAt client.toMarketData price asset t = price asset t := if_neg hasset
    rw [hworth]
    by_cases hnow : i = (grid sinceMs stepMs nowMs).length - 1
    · rw [decide_eq_true ⟨hnow, Nat.pos_of_ne_zero hzero⟩, hlast hnow] at h
      rw [hlast hnow]
      split at h
      · rename_i price' heq
        rw [← Except.ok.inj h]
        exact hnewest _ heq
      · cases h
    · rw [decide_eq_false fun hand => hnow hand.1] at h
      obtain ⟨hlo, hhi, hdvd⟩ := hbetween hnow
      have hle : stepMs ≤ t := Nat.le_of_dvd (by omega) hdvd
      split at h
      · rename_i price' heq
        rw [← Except.ok.inj h]
        exact hclosed t _ hdvd (by omega) hhi heq
      · cases h

theorem mem_heldAssets {q : List (String × ℚ)} {asset : String} :
    asset ∈ heldAssets client q ↔ ∃ e ∈ q, e.2 ≠ 0 ∧ e.1 ≠ client.quoteCurrency ∧ e.1 = asset := by
  unfold heldAssets
  simp only [List.mem_map, List.mem_filter, decide_eq_true_eq]
  constructor
  · rintro ⟨e, ⟨he, hne, hquote⟩, rfl⟩
    exact ⟨e, he, hne, hquote, rfl⟩
  · rintro ⟨e, he, hne, hquote, rfl⟩
    exact ⟨e, ⟨he, hne, hquote⟩, rfl⟩

/-- The values of the chart. -/
theorem chart_navs (hprices : PricedBy client.toMarketData price) (hcandles : CandlesReport lib client price nowMs)
    {stepMs : ℕ} (hstep : stepMs ∈ SERIES_STEPS_MS) {quantities : List (List (String × ℚ))}
    (hquantities : ((grid sinceMs stepMs nowMs).mapM fun atMs =>
      quantitiesAt atMs nowMs p.currentBalances p.deltas) = .ok quantities)
    {candles : List (String × List RawCandle)}
    (hfetched : ((Std.TreeSet.ofList (quantities.flatMap (heldAssets client))).toList.mapM fun asset => do
      let candles ← (client.fetchCandlesSpan (client.marketSymbol asset) stepMs (sinceMs - 2 * stepMs) nowMs).mapError
        HistoryError.market
      pure (asset, candles)) = .ok candles)
    {firstPrices : List (String × ℚ)}
    (hfirst : ((heldAssets client (quantities.headD [])).mapM fun asset => do
      let price ← (resolveHistoricalPrice client.toMarketData asset sinceMs).mapError HistoryError.publish
      pure (asset, price)) = .ok firstPrices)
    {points : List DailyNav}
    (hpoints : (gridPoints (grid sinceMs stepMs nowMs) quantities).mapM (seriesNav lib client candles firstPrices) =
      .ok points) :
    points = (grid sinceMs stepMs nowMs).map fun t => ⟨t, reconstructedValue client.toMarketData price p nowMs t⟩ := by
  rw [mapM_ok] at hquantities hpoints
  have hlength : points.length = (grid sinceMs stepMs nowMs).length := by
    have heq := hpoints.length_eq
    unfold gridPoints at heq
    rw [List.length_map, List.length_zipIdx, List.length_zip, ← hquantities.length_eq, min_self] at heq
    exact heq.symm
  refine List.ext_getElem? fun i => ?_
  rw [List.getElem?_map]
  cases ht : (grid sinceMs stepMs nowMs)[i]? with
  | none =>
    rw [List.getElem?_eq_none (by rw [hlength]; exact List.getElem?_eq_none_iff.1 ht)]
    rfl
  | some t =>
    obtain ⟨q, hq, hat⟩ := forall₂_getElem? hquantities ht
    obtain ⟨d, hd, hnav⟩ := forall₂_getElem? hpoints (gridPoints_getElem? ht hq)
    have hvalue := @seriesNav_ok lib client price candles firstPrices _ d (fun e he hne r hr => ?_) hnav
    · rw [hd, hvalue, Option.map_some, ← reconstructedValue_eq hat]
    · by_cases hquote : e.1 = client.quoteCurrency
      · rw [seriesPrice, if_pos hquote] at hr
        rw [hquote, worthAt_quote]
        exact (Except.ok.inj hr).symm
      · refine seriesPrice_ok hprices hcandles hstep ht hquote (fun hzero => ?_) ?_ hr
        · rw [hzero, ← List.head?_eq_getElem?] at hq
          refine lookup_mapM hfirst ?_
          rw [List.headD_eq_head?_getD, hq, Option.getD_some]
          exact mem_heldAssets.2 ⟨e, he, hne, hquote, rfl⟩
        · refine lookup_mapM hfetched ?_
          rw [Std.TreeSet.mem_toList, Std.TreeSet.mem_ofList, List.contains_iff_mem]
          exact List.mem_flatMap.2 ⟨q, List.mem_of_getElem? hq, mem_heldAssets.2 ⟨e, he, hne, hquote, rfl⟩⟩

end Values

section Agreement

variable {lib : Decimals} {client : ChartMarket} {price : String → ℕ → ℚ} {sinceMs nowMs : ℕ}
  {allTrades : List Trade} {allFlows : List NormalizedFlow}

/-- The figures and the chart say the same at every instant that both have, and at the end. -/
structure Agree (history : HistoryResult) (series : SeriesResult) : Prop where
  nav : ∀ d ∈ history.dailyNav, ∀ point ∈ series.points, d.dayStartMs = point.timeMs → d.nav = point.nav
  index : ∀ i ∈ history.twrIndex, ∀ point ∈ series.points, i.timeMs = point.timeMs → i.index = point.index
  final : ∃ first last i point, history.dailyNav.head? = some first ∧ history.dailyNav.getLast? = some last ∧
    history.twrIndex.getLast? = some i ∧ series.points.getLast? = some point ∧ i.timeMs = last.dayStartMs ∧
      point.timeMs = last.dayStartMs ∧ point.nav = last.nav ∧ point.index = i.index ∧
        i.index * first.nav = last.nav ∧ (first.nav ≠ 0 → i.index = last.nav / first.nav)

theorem grid_cons (startMs stepMs nowMs : ℕ) :
    ∃ rest, grid startMs stepMs nowMs = startMs :: rest := by
  unfold grid
  dsimp only
  split_ifs <;> exact ⟨_, rfl⟩

theorem grid_getLast? {stepMs : ℕ} (hstep : 0 < stepMs) (startMs nowMs : ℕ) :
    (grid startMs stepMs nowMs).getLast? = some (if startMs < nowMs then nowMs else startMs) := by
  rw [grid_eq hstep]
  split_ifs
  · rw [← List.cons_append, List.getLast?_concat]
  · rfl

/-- Without deposits and withdrawals, and with prices that both sources report exactly, the chart over all time agrees
with the performance figures. -/
theorem chart_agrees (hprices : PricedBy client.toMarketData price) (hcandles : CandlesReport lib client price nowMs)
    (hflows : ∀ f ∈ allFlows, sinceMs ≤ f.economicTimeMs.toNat → f.isExternal = false)
    {history : HistoryResult} {series : SeriesResult}
    (hhistory : computeHistory lib client.toMarketData allTrades allFlows sinceMs nowMs = .ok history)
    (hseries : computeSeries lib client allTrades allFlows sinceMs nowMs .max = .ok series) :
    Agree history series := by
  simp only [computeHistory, bind_ok, pure_ok, mapError_ok] at hhistory
  obtain ⟨p, hprepare, v, hv, twr, htwr, -, -, -, -, rfl⟩ := hhistory
  simp only [computeSeries, SeriesRange.windowMs, Option.map_none, Option.getD_none, bind_ok, pure_ok] at hseries
  obtain ⟨p', hprepare', quantities, hquantities, candles, hfetched, firstPrices, hfirst, points, hpoints, flows, hpriced,
    twr', htwr', rfl⟩ := hseries
  obtain rfl : p = p' := Except.ok.inj (hprepare.symm.trans hprepare')
  rw [mapError_ok] at htwr'
  have hnone : ∀ f ∈ p.flows, f.isExternal = false := by
    intro f hf
    rw [prepare_flows hprepare] at hf
    obtain ⟨hin, hsince⟩ := List.mem_filter.1 hf
    exact hflows f hin (of_decide_eq_true hsince)
  have hhistoryFlows : v.flows = [] := by
    have hall := (valueCheckpoints_ok hv).1
    rw [List.filter_eq_nil_iff.2 fun f hf => by simp [hnone f hf], List.mapM_nil, pure_ok] at hall
    exact hall.symm
  have hseriesFlows : flows = [] := by
    rw [List.filter_eq_nil_iff.2 fun f hf => by simp [hnone f hf], List.mapM_nil, pure_ok] at hpriced
    exact hpriced.symm
  -- both walks visit the times of a grid, with the value that is reconstructed there
  have hstep := stepFor_mem .max (nowMs - sinceMs)
  have hpos := step_pos hstep
  have hday : 0 < DAY_MS := by decide
  have hchart := chart_navs hprices hcandles hstep hquantities hfetched hfirst hpoints
  have hfigures := dailyNavOf_eq hprices hv
  rw [checkpoints_eq] at hfigures
  obtain ⟨rest, hgrid⟩ := grid_cons sinceMs DAY_MS nowMs
  obtain ⟨rest', hgrid'⟩ := grid_cons sinceMs (stepFor .max (nowMs - sinceMs)) nowMs
  have hlast := grid_getLast? hday sinceMs nowMs
  have hlast' := grid_getLast? hpos sinceMs nowMs
  have hsorted : (grid sinceMs DAY_MS nowMs).Pairwise (· < ·) := pairwise_grid hday
  have hsorted' : (grid sinceMs (stepFor .max (nowMs - sinceMs)) nowMs).Pairwise (· < ·) := pairwise_grid hpos
  rw [hgrid] at hfigures hlast hsorted
  rw [hgrid'] at hchart hlast' hsorted'
  rw [checkpoints_eq, hgrid] at htwr
  rw [hseriesFlows, hchart] at htwr'
  rw [hhistoryFlows, hfigures] at htwr
  obtain ⟨hindex, -, hpositive⟩ := index_walk hsorted htwr
  obtain ⟨-, hpointsOf, -⟩ := index_walk hsorted' htwr'
  rw [checkpoints_eq, hgrid, hchart, hfigures, hindex, hpointsOf]
  refine ⟨?_, ?_, ?_⟩
  · intro d hd point hpoint htime
    obtain ⟨t, -, rfl⟩ := List.mem_map.1 hd
    obtain ⟨t', -, rfl⟩ := List.mem_map.1 hpoint
    dsimp only at htime ⊢
    rw [htime]
  · intro i hi point hpoint htime
    obtain ⟨t, -, rfl⟩ := List.mem_map.1 hi
    obtain ⟨t', -, rfl⟩ := List.mem_map.1 hpoint
    dsimp only at htime ⊢
    rw [htime]
  · dsimp only
    rw [List.getLast?_map, List.getLast?_map, List.getLast?_map, hlast, hlast']
    have hproduct := indexAt_mul hsorted hpositive (List.mem_of_getLast? hlast)
    exact ⟨_, _, _, _, rfl, rfl, rfl, rfl, rfl, rfl, rfl, rfl, hproduct, fun hne => eq_div_of_mul_eq hne hproduct⟩

end Agreement

section Aligned

variable {lib : Decimals} {stepMs startMs nowMs : ℕ} {candles : List RawCandle}

/-- The candles of a price, oldest first: each covers one step and closes at the price there, or at that of now. -/
structure Aligned (lib : Decimals) (price : ℕ → ℚ) (stepMs startMs nowMs : ℕ) (candles : List RawCandle) : Prop where
  ordered : candles.Pairwise fun a b => a.openTimeMs < b.openTimeMs
  covers : ∀ c ∈ candles, stepMs ∣ c.openTimeMs ∧ c.closeTimeMs + 1 = c.openTimeMs + stepMs
  closes : ∀ c ∈ candles, lib.fromStr c.closePrice = some (price (min (c.openTimeMs + stepMs) nowMs))
  all : ∀ t, stepMs ∣ t → startMs ≤ t → t ≤ nowMs → ∃ c ∈ candles, c.openTimeMs = t
  newest : ∀ c ∈ candles.getLast?, nowMs < c.openTimeMs + stepMs

/-- The last candle that had closed by a step is the one that ends there. -/
theorem Aligned.last_closed {price : ℕ → ℚ} (h : Aligned lib price stepMs startMs nowMs candles) (hstep : 1 < stepMs)
    {atMs : ℕ} (hdvd : stepMs ∣ atMs) (hstart : startMs + stepMs ≤ atMs) (hnow : atMs < nowMs) {c : RawCandle}
    (hfind : candles.reverse.find? (fun c => c.closeTimeMs ≤ atMs) = some c) : c.openTimeMs + stepMs = atMs := by
  obtain ⟨hclosed, later, earlier, hsplit, hopen⟩ := List.find?_eq_some_iff_append.1 hfind
  have hmem : c ∈ candles := List.mem_reverse.1 (List.mem_of_find?_eq_some hfind)
  obtain ⟨hcdvd, hcclose⟩ := h.covers c hmem
  have hle : c.openTimeMs + stepMs ≤ atMs := by
    have hclosed : c.closeTimeMs ≤ atMs := of_decide_eq_true hclosed
    by_contra hgt
    have hone : c.openTimeMs + stepMs = atMs + 1 := by omega
    have hdvd' : stepMs ∣ atMs + 1 := hone ▸ Nat.dvd_add_self_right.2 hcdvd
    have hunit : stepMs ∣ 1 := (Nat.dvd_add_right hdvd).1 hdvd'
    exact absurd (Nat.le_of_dvd Nat.one_pos hunit) (by omega)
  -- the candle that ends there is in the list, and it is not among the later ones
  obtain ⟨c', hc', htime⟩ := h.all (atMs - stepMs) (Nat.dvd_sub hdvd dvd_rfl) (by omega) (by omega)
  have hclose' := (h.covers c' hc').2
  have hin : c' ∈ candles.reverse := List.mem_reverse.2 hc'
  rw [hsplit, List.mem_append, List.mem_cons] at hin
  rcases hin with hlater | rfl | hearlier
  · have hopen' := hopen c' hlater
    simp only [Bool.not_eq_true', decide_eq_false_iff_not] at hopen'
    omega
  · omega
  · have hordered := List.pairwise_reverse.2 h.ordered
    rw [hsplit] at hordered
    have hlt := (List.pairwise_cons.1 (List.pairwise_append.1 hordered).2.1).1 c' hearlier
    omega

/-- Candles that are aligned report their price. -/
theorem candlesReport_of_aligned {client : ChartMarket} {price : String → ℕ → ℚ}
    (h : ∀ asset stepMs startMs candles, stepMs ∈ SERIES_STEPS_MS →
      client.fetchCandlesSpan (client.marketSymbol asset) stepMs startMs nowMs = .ok candles →
        Aligned lib (price asset) stepMs startMs nowMs candles) : CandlesReport lib client price nowMs := by
  intro asset stepMs startMs candles hstep hfetch
  have haligned := h asset stepMs startMs candles hstep hfetch
  have hlarge : 1 < stepMs := by
    have hall : ∀ step ∈ SERIES_STEPS_MS, 1 < step := by decide
    exact hall stepMs hstep
  refine ⟨fun atMs r hdvd hstart hnow hprice => ?_, fun r hprice => ?_⟩
  · simp only [priceAt, Bool.false_eq_true, if_false, Option.bind_eq_bind, Option.bind_eq_some_iff] at hprice
    obtain ⟨c, hfind, hclose⟩ := hprice
    have hends := haligned.last_closed hlarge hdvd hstart hnow hfind
    rw [haligned.closes c (List.mem_reverse.1 (List.mem_of_find?_eq_some hfind)), hends, min_eq_left hnow.le] at hclose
    exact (Option.some.inj hclose).symm
  · simp only [priceAt, if_true, Option.bind_eq_bind, Option.bind_eq_some_iff] at hprice
    obtain ⟨c, hlast, hclose⟩ := hprice
    rw [haligned.closes c (List.mem_of_getLast? hlast), min_eq_right (haligned.newest c hlast).le] at hclose
    exact (Option.some.inj hclose).symm

end Aligned

section Example

/-- Ten until the trade, and twenty after it. -/
def doublingPrice (_asset : String) (timeMs : ℕ) : ℚ := if timeMs ≤ 2000 then 10 else 20

def doublingMarket : ChartMarket where
  quoteCurrency := "USDT"
  marketSymbol asset := asset ++ "USDT"
  fetchSymbolAssetsFor symbols := .ok (nicheCatalog.filter fun m _ => m ∈ symbols)
  fetchAccountBalances := .ok [⟨"USDT", "0", "0"⟩, ⟨"NICHE", "2", "0"⟩]
  priceAtInstant asset timeMs := .ok (doublingPrice asset timeMs)
  fetchCandlesSpan _ stepMs _ _ := .ok [⟨0, "20", stepMs - 1⟩]

def boughtOnce : List Trade := [⟨"NICHEUSDT", 1, "10", "2", "0", "USDT", 2000, true⟩]

theorem doublingMarket_reports : CandlesReport exampleDecimals doublingMarket doublingPrice 5000 := by
  refine candlesReport_of_aligned fun asset stepMs startMs candles hstep hfetch => ?_
  have hlarge : 5000 < stepMs := by
    have hall : ∀ step ∈ SERIES_STEPS_MS, 5000 < step := by decide
    exact hall stepMs hstep
  rw [← Except.ok.inj hfetch]
  refine ⟨List.pairwise_singleton _ _, ?_, ?_, ?_, ?_⟩
  · intro c hc
    rw [List.mem_singleton.1 hc]
    exact ⟨dvd_zero _, by dsimp only; omega⟩
  · intro c hc
    have htwenty : exampleDecimals.fromStr "20" = some 20 := by decide
    rw [List.mem_singleton.1 hc]
    dsimp only
    rw [htwenty, zero_add, min_eq_right hlarge.le]
    rfl
  · intro t hdvd _ hle
    exact ⟨_, List.mem_singleton_self _, (Nat.eq_zero_of_dvd_of_lt hdvd (by omega)).symm⟩
  · intro c hc
    rw [← Option.some.inj hc]
    omega

def doublingHistory : Except HistoryError HistoryResult :=
  computeHistory exampleDecimals doublingMarket.toMarketData boughtOnce [] 1000 5000

def doublingSeries : Except HistoryError SeriesResult :=
  computeSeries exampleDecimals doublingMarket boughtOnce [] 1000 5000 .max

theorem doubling_ok : doublingHistory.toOption.isSome = true ∧
    doublingSeries.toOption.map SeriesResult.points = some [⟨1000, 20, 1⟩, ⟨5000, 40, 2⟩] := by
  decide +kernel

/-- Twenty become forty, on the chart as in the figures. -/
theorem chart_agrees_doubling : ∃ history series, doublingHistory = .ok history ∧ doublingSeries = .ok series ∧
    series.points = [⟨1000, 20, 1⟩, ⟨5000, 40, 2⟩] ∧ Agree history series := by
  obtain ⟨hhistory, hseries⟩ := doubling_ok
  rcases h : doublingHistory with e | history
  · rw [h] at hhistory
    cases hhistory
  · rcases h' : doublingSeries with e | series
    · rw [h'] at hseries
      cases hseries
    · rw [h'] at hseries
      exact ⟨history, series, rfl, rfl, Option.some.inj hseries,
        chart_agrees (fun asset timeMs r hr => (Except.ok.inj hr).symm) doublingMarket_reports (by simp) h h'⟩

end Example

end Linvesther.Worker
