import Linvesther.Base.StableSort
import Linvesther.Domain.MixedQueue
import Linvesther.Worker.History
import Linvesther.Worker.Ibkr

/-! The trades of an Interactive Brokers account: how reports are stored, and the win rate of what is stored. -/

namespace Linvesther.Worker.Ibkr

open Domain FirstWins Transaction

section Stored

structure TradeRecord where
  tradeDate : String
  symbol : String
  isBuy : Bool
  quantity : ℚ
  price : ℚ
deriving DecidableEq

/-- A row of `ibkr_trades`. -/
structure TradeRow where
  tradeDate : ℤ
  symbol : String
  isBuy : Bool
  quantity : ℚ
  price : ℚ
  ordinal : Int32
deriving DecidableEq

def TradeRow.key (row : TradeRow) : ℤ × String × Int32 := (row.tradeDate, row.symbol, row.ordinal)

variable (parseReportDate : String → Option ℤ) (sinceDate : ℤ)

/-- `ON CONFLICT (connection_id, trade_date, symbol, ordinal) DO NOTHING`. -/
def storeTrade (rows : List TradeRow) (entry : TradeRecord × ℕ) : List TradeRow :=
  match keptDate parseReportDate sinceDate entry.1.tradeDate with
  | none => rows
  | some date => insertNew TradeRow.key rows
    ⟨date, entry.1.symbol, entry.1.isBuy, entry.1.quantity, entry.1.price, Int32.ofNat entry.2⟩

/-- The trades of a report, each with its place in it. -/
def syncTrades (rows : List TradeRow) (trades : List TradeRecord) : List TradeRow :=
  trades.zipIdx.foldl (storeTrade parseReportDate sinceDate) rows

def TradeRow.before (a b : TradeRow) : Prop :=
  a.tradeDate < b.tradeDate ∨ a.tradeDate = b.tradeDate ∧ a.ordinal.toInt ≤ b.ordinal.toInt

instance : DecidableRel TradeRow.before := fun a b =>
  inferInstanceAs (Decidable (a.tradeDate < b.tradeDate ∨ a.tradeDate = b.tradeDate ∧ a.ordinal.toInt ≤ b.ordinal.toInt))

/-- `ORDER BY trade_date, ordinal`. Rows that it does not tell apart come as the table has them. -/
def reportOrder (rows : List TradeRow) : List TradeRow := rows.insertionSort TradeRow.before

def storedTrades (rows : List TradeRow) : List (ℤ × Bool × ℚ × ℚ) :=
  (reportOrder rows).map fun row => (row.tradeDate, row.isBuy, row.quantity, row.price)

def fillOf (tradeRow : ℤ × Bool × ℚ × ℚ) : Fill where
  timeMs := (msAtDate tradeRow.1).toUInt64.toNat
  qty := tradeRow.2.2.1
  price := tradeRow.2.2.2
  isBuy := tradeRow.2.1

/-- The win rate that `load_performance` reports. -/
def winRate (rows : List TradeRow) : Option WinRateResult := computeWinRate ((storedTrades rows).map fillOf)

end Stored

section Overall

/-- The win rates of the symbols, combined. -/
def combined (rates : List WinRateResult) : Option WinRateResult :=
  let totalClosed := (rates.map WinRateResult.closedRoundTrips).sum
  let totalWins := (rates.map WinRateResult.wins).sum
  if totalClosed = 0 then none else some ⟨totalClosed, totalWins, totalWins / totalClosed⟩

/-- The win rate of fills, each with its symbol. -/
def overallOf (fills : List (String × Fill)) : Option WinRateResult :=
  combined ((fills.map Prod.fst).dedup.filterMap fun symbol =>
    computeWinRate ((fills.filter fun f => f.1 = symbol).map Prod.snd))

theorem combined_perm {rates rates' : List WinRateResult} (h : rates.Perm rates') : combined rates = combined rates' := by
  unfold combined
  rw [(h.map WinRateResult.closedRoundTrips).sum_eq, (h.map WinRateResult.wins).sum_eq]

/-- What is reported of the other exchanges. -/
theorem computeOverallWinRate_ok {lib : Decimals} {trades : List Trade} {result : Option WinRateResult}
    (h : computeOverallWinRate lib trades = .ok result) :
    ∃ fills, trades.mapM (tradeFill lib) = .ok fills ∧ result = overallOf fills := by
  simp only [computeOverallWinRate, bind_ok, pure_ok] at h
  obtain ⟨fills, hfills, hresult⟩ := h
  refine ⟨fills, hfills, hresult.symm.trans ?_⟩
  have hgroups : (fills.foldl (fun bySymbol f => bySymbol.alter f.1 fun fills => some (fills.getD [] ++ [f.2]))
      (∅ : Std.TreeMap String (List Fill))).toList.Perm ((fills.map Prod.fst).dedup.map fun symbol =>
        (symbol, (fills.filter fun f => f.1 = symbol).map Prod.snd)) := OrderedMap.perm_toList_alter Prod.snd fills
  have hrates := hgroups.filterMap fun s => computeWinRate s.2
  rw [List.filterMap_map] at hrates
  exact combined_perm hrates

end Overall

section Matched

instance : IsTrans TradeRow TradeRow.before where
  trans a b c hab hbc := by
    unfold TradeRow.before at *
    omega

instance : Std.Total TradeRow.before where
  total a b := by
    unfold TradeRow.before
    omega

/-- The fills with their symbols, in the order of the report. -/
def symbolFills (rows : List TradeRow) : List (String × Fill) :=
  (reportOrder rows).map fun row => (row.symbol, fillOf (row.tradeDate, row.isBuy, row.quantity, row.price))

/-- In the order in which they are matched. -/
def inTime (fills : List (String × Fill)) : List (String × Fill) :=
  fills.insertionSort fun a b => a.2.timeMs ≤ b.2.timeMs

instance : IsTrans (String × Fill) fun a b => a.2.timeMs ≤ b.2.timeMs where
  trans _ _ _ := le_trans

instance : Std.Total fun a b : String × Fill => a.2.timeMs ≤ b.2.timeMs where
  total _ _ := le_total _ _

theorem filter_inTime (fills : List (String × Fill)) (symbol : String) :
    ((inTime fills).filter fun f => f.1 = symbol) = inTime (fills.filter fun f => f.1 = symbol) :=
  StableSort.filter_insertionSort _ _

/-- The win rate of fills is that of what is matched of them in time. -/
theorem computeWinRate_inTime (fills : List (String × Fill)) :
    computeWinRate (fills.map Prod.snd) = reportOf (fillMatches [] ((inTime fills).map Prod.snd)) := by
  have hsort : (fills.map Prod.snd).insertionSort (fun a b => a.timeMs ≤ b.timeMs) = (inTime fills).map Prod.snd :=
    (List.map_insertionSort _ _ Prod.snd fills fun _ _ _ _ => Iff.rfl).symm
  have hsorted : ((inTime fills).map Prod.snd).Pairwise fun a b => a.timeMs ≤ b.timeMs := by
    rw [← hsort]
    exact List.pairwise_insertionSort _ _
  rw [← computeWinRate_eq_report hsorted]
  unfold computeWinRate
  rw [hsort, hsorted.insertionSort_eq]

/-- All round trips that `load_performance` counts, with the symbols that were bought and sold. -/
def countedTrips (rows : List TradeRow) : List (RoundTrip String) := roundTrips 0 [] (inTime (symbolFills rows))

theorem winRate_eq (rows : List TradeRow) : winRate rows = reportOf ((countedTrips rows).map RoundTrip.trip) := by
  have hfills : (storedTrades rows).map fillOf = (symbolFills rows).map Prod.snd := by
    unfold storedTrades symbolFills
    rw [List.map_map, List.map_map]
    rfl
  unfold winRate countedTrips
  rw [hfills, computeWinRate_inTime, roundTrips_trips]
  rfl

/-- What `compute_win_rate` reports of matches, as counts. -/
theorem combined_reports (groups : List (List Match)) :
    combined (groups.filterMap reportOf) = reportOf groups.flatten := by
  have hcounts : ((groups.filterMap reportOf).map WinRateResult.closedRoundTrips).sum = groups.flatten.length ∧
      ((groups.filterMap reportOf).map WinRateResult.wins).sum = groups.flatten.countP Match.isWin := by
    induction groups with
    | nil => exact ⟨rfl, rfl⟩
    | cons group groups ih =>
      obtain ⟨hclosed, hwins⟩ := ih
      rw [List.flatten_cons, List.length_append, List.countP_append, ← hclosed, ← hwins, List.filterMap_cons]
      by_cases hnone : group.length = 0
      · obtain rfl := List.length_eq_zero_iff.1 hnone
        simp [reportOf]
      · simp [reportOf, hnone]
  obtain ⟨hclosed, hwins⟩ := hcounts
  unfold combined
  dsimp only
  rw [hclosed, hwins]
  rfl

end Matched

section BySymbol

/-- The win rate is that of each symbol's own fills, combined over the symbols. -/
structure BySymbol (rows : List TradeRow) : Prop where
  rate : winRate rows = overallOf (symbolFills rows)
  within : ∀ t ∈ countedTrips rows, t.bought = t.sold
  own : ∀ symbol, ((countedTrips rows).filter fun t => t.sold = symbol).map RoundTrip.trip =
    fillMatches [] (((inTime (symbolFills rows)).filter fun f => f.1 = symbol).map Prod.snd)

theorem mem_symbols_of_trip {place : ℕ} {lots : List (AssetLot String)} {fills : List (String × Fill)}
    {t : RoundTrip String} (h : t ∈ roundTrips place lots fills) : t.sold ∈ fills.map Prod.fst := by
  induction fills generalizing place lots with
  | nil => cases h
  | cons f fills ih =>
    obtain ⟨symbol, fill⟩ := f
    unfold roundTrips at h
    split_ifs at h
    · exact List.mem_cons_of_mem _ (ih h)
    · rcases List.mem_append.1 h with hsale | hrest
      · rw [assetSale_sold hsale]
        exact List.mem_cons_self
      · exact List.mem_cons_of_mem _ (ih hrest)

/-- The win rate of IBKR trades is by symbol exactly if every sell is filled by what is open of its own symbol and was
bought before all that is open of other symbols. -/
theorem winRate_bySymbol_iff (rows : List TradeRow) :
    BySymbol rows ↔ Apart 0 (fun _ => []) (inTime (symbolFills rows)) := by
  have hmerged : Merged 0 (fun _ => []) ([] : List (AssetLot String)) := Merged.empty
  have hwithin := roundTrips_within_iff hmerged (inTime (symbolFills rows))
  refine ⟨fun h => hwithin.1 h.within, fun h => ⟨?_, hwithin.2 h, fun symbol => roundTrips_own hmerged h symbol⟩⟩
  -- the round trips, symbol by symbol
  have hrates : (((symbolFills rows).map Prod.fst).dedup.filterMap fun symbol =>
        computeWinRate (((symbolFills rows).filter fun f => f.1 = symbol).map Prod.snd)) =
      ((((symbolFills rows).map Prod.fst).dedup.map fun symbol =>
        ((countedTrips rows).filter fun t => t.sold = symbol).map RoundTrip.trip).filterMap reportOf) := by
    rw [List.filterMap_map]
    refine List.filterMap_congr fun symbol _ => ?_
    have hown := roundTrips_own hmerged h symbol
    rw [Function.comp_apply, countedTrips, hown, computeWinRate_inTime, filter_inTime]
    rfl
  have htrips : ((((symbolFills rows).map Prod.fst).dedup.map fun symbol =>
      ((countedTrips rows).filter fun t => t.sold = symbol).map RoundTrip.trip).flatten).Perm
        ((countedTrips rows).map RoundTrip.trip) := by
    have hgroups := (OrderedMap.perm_flatMap_filter RoundTrip.sold (countedTrips rows)
      (List.nodup_dedup ((symbolFills rows).map Prod.fst))).map RoundTrip.trip
    rw [List.map_flatMap, List.flatMap_def] at hgroups
    rw [List.filter_eq_self.2 fun t ht => ?_] at hgroups
    · exact hgroups
    · have hperm := (List.perm_insertionSort (fun a b : String × Fill => a.2.timeMs ≤ b.2.timeMs) (symbolFills rows)).map
        Prod.fst
      rw [decide_eq_true_eq, List.mem_dedup, ← hperm.mem_iff]
      exact mem_symbols_of_trip ht
  have hreport : reportOf ((countedTrips rows).map RoundTrip.trip) = overallOf (symbolFills rows) := by
    unfold overallOf
    rw [hrates, combined_reports]
    unfold reportOf
    rw [htrips.length_eq, htrips.countP_eq]
  rw [winRate_eq, hreport]

/-- One symbol is bought for ten, another for thirty and sold for twenty. -/
def twoSymbols : List TradeRow :=
  [⟨20455, "AAPL", true, 1, 10, 0⟩, ⟨20455, "TSLA", true, 1, 30, 1⟩, ⟨20456, "TSLA", false, 1, 20, 2⟩]

theorem loss_taken_for_win : winRate twoSymbols = some ⟨1, 1, 1⟩ ∧
    overallOf (symbolFills twoSymbols) = some ⟨1, 0, 0⟩ ∧ ¬ BySymbol twoSymbols := by
  have hrate : winRate twoSymbols = some ⟨1, 1, 1⟩ := by decide +kernel
  have hoverall : overallOf (symbolFills twoSymbols) = some ⟨1, 0, 0⟩ := by decide +kernel
  refine ⟨hrate, hoverall, fun h => ?_⟩
  have hsame := h.rate
  rw [hrate, hoverall] at hsame
  exact absurd hsame (by decide +kernel)

end BySymbol

end Linvesther.Worker.Ibkr
