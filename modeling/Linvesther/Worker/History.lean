import Linvesther.Domain.Ledger
import Linvesther.Domain.Returns
import Linvesther.Domain.Valuation
import Linvesther.Domain.WinRate
import Linvesther.Worker.Pnl

/-! The value of an account since it was connected and its time-weighted return, from the trades and flows
that were collected and the balances that it has now. -/

namespace Linvesther.Worker

open Transaction Domain

section Collected

/-- What is used of `rust_decimal`; a decimal is taken as the number it is. -/
structure Decimals where
  fromStr : String → Option ℚ
  toString : ℚ → String

structure Trade where
  symbol : String
  id : UInt64
  price : String
  qty : String
  commission : String
  commissionAsset : String
  timeMs : UInt64
  isBuyer : Bool
deriving DecidableEq

inductive FlowFamily where
  | deposit
  | withdrawal
  | transfer
  | convert
  | dust
  | dividend
deriving DecidableEq

def FlowFamily.name : FlowFamily → String
  | .deposit => "deposit"
  | .withdrawal => "withdrawal"
  | .transfer => "transfer"
  | .convert => "convert"
  | .dust => "dust"
  | .dividend => "dividend"

structure AssetLeg where
  asset : String
  amount : String
  isCredit : Bool
deriving DecidableEq

structure NormalizedFlow where
  sourceNamespace : FlowFamily
  sourceId : String
  economicTimeMs : UInt64
  legs : List AssetLeg
  fee : Option AssetLeg
deriving DecidableEq

structure AccountBalance where
  asset : String
  free : String
  locked : String
deriving DecidableEq

end Collected

section Market

structure MarketError where
  message : String
deriving DecidableEq

/-- The base and the quote asset of each symbol. -/
abbrev SymbolAssets := Std.TreeMap String (String × String)

structure MarketData where
  quoteCurrency : String
  marketSymbol : String → String
  fetchSymbolAssetsFor : Finset String → Except MarketError SymbolAssets
  fetchAccountBalances : Except MarketError (List AccountBalance)
  priceAtInstant : String → ℕ → Except MarketError ℚ

inductive PublishError where
  | valuation (e : ValuationError)
deriving DecidableEq

inductive HistoryError where
  | market (e : MarketError)
  | unknownSymbol (id : UInt64) (symbol : String)
  | invalidAmount (text : String)
  | valuation (e : ValuationError)
  | return_ (e : ReturnError)
  | publish (e : PublishError)
deriving DecidableEq

def resolveHistoricalPrice (client : MarketData) (asset : String) (evaluatedAtMs : ℕ) :
    Except PublishError ℚ :=
  if asset = client.quoteCurrency then .ok 1
  else (client.priceAtInstant asset evaluatedAtMs).mapError fun e =>
    .valuation (.unsupportedAsset (asset ++ ": " ++ e.message))

end Market

section Reconstruction

variable (lib : Decimals) (client : MarketData)

def parseDecimal (s : String) : Except HistoryError ℚ :=
  match lib.fromStr s with
  | some d => .ok d
  | none => .error (.invalidAmount s)

def tradeToLedgerEvent (trade : Trade) (base quote : String) : Except HistoryError LedgerEvent := do
  let price ← parseDecimal lib trade.price
  let qty ← parseDecimal lib trade.qty
  let quoteAmount := lib.toString (price * qty)
  pure
    { sourceNamespace := "binance.trade"
      sourceId := trade.symbol ++ "#" ++ Nat.repr trade.id.toNat
      economicTimeMs := trade.timeMs
      observedTimeMs := trade.timeMs
      legs := [⟨base, trade.qty, trade.isBuyer⟩, ⟨quote, quoteAmount, !trade.isBuyer⟩]
      fee := some ⟨trade.commissionAsset, trade.commission, false⟩ }

def AssetLeg.toLedgerLeg (l : AssetLeg) : LedgerLeg := ⟨l.asset, l.amount, l.isCredit⟩

def flowToLedgerEvent (flow : NormalizedFlow) : LedgerEvent where
  sourceNamespace := flow.sourceNamespace.name
  sourceId := flow.sourceId
  economicTimeMs := flow.economicTimeMs
  observedTimeMs := flow.economicTimeMs
  legs := flow.legs.map AssetLeg.toLedgerLeg
  fee := flow.fee.map AssetLeg.toLedgerLeg

abbrev Deltas := Std.TreeMap String (List TimedDelta)

def addDelta (timeMs : ℕ) (deltas : Deltas) (leg : LedgerLeg) : Except HistoryError Deltas := do
  let amount ← parseDecimal lib leg.amount
  let signed := if leg.isCredit then amount else -amount
  pure (deltas.alter leg.asset fun ds => some (ds.getD [] ++ [⟨timeMs, signed⟩]))

def perAssetDeltas (events : List LedgerEvent) : Except HistoryError Deltas :=
  events.foldlM (fun deltas event =>
    event.allLegs.foldlM (addDelta lib event.economicTimeMs.toNat) deltas) ∅

def tradeEvent (symbolAssets : SymbolAssets) (trade : Trade) : Except HistoryError LedgerEvent :=
  match symbolAssets[trade.symbol]? with
  | none => .error (.unknownSymbol trade.id trade.symbol)
  | some (base, quote) => tradeToLedgerEvent lib trade base quote

def collectLedgerEvents (trades : List Trade) (flows : List NormalizedFlow)
    (symbolAssets : SymbolAssets) : Except HistoryError (List LedgerEvent) := do
  let events ← trades.mapM (tradeEvent lib symbolAssets)
  pure ((events ++ flows.map flowToLedgerEvent).insertionSort fun a b =>
    a.economicTimeMs.toNat ≤ b.economicTimeMs.toNat)

/-- The free and the locked part of each balance. -/
abbrev Balances := Std.TreeMap String (ℚ × ℚ)

/-- The quantities at the cut, in the order of the assets. -/
def quantitiesAt (cutMs nowMs : ℕ) (currentBalances : Balances) (deltas : Deltas) :
    Except HistoryError (List (String × ℚ)) :=
  currentBalances.toList.mapM fun b => do
    let quantity ← (reconstructQuantity ⟨b.2.1, b.2.2, nowMs⟩ (deltas.getD b.1 []) cutMs).mapError
      fun source => .valuation (.ambiguousOrdering b.1 source)
    pure (b.1, quantity)

structure Prepared where
  trades : List Trade
  flows : List NormalizedFlow
  symbolAssets : SymbolAssets
  deltas : Deltas
  currentBalances : Balances

/-- The markets to look up for the balances that are held or touched. -/
def wantedMarkets (symbolAssets : SymbolAssets) (deltas : Deltas) (balances : List AccountBalance) :
    Finset String :=
  let wanted := balances.filter fun b => b.asset ≠ client.quoteCurrency ∧
    ((lib.fromStr b.free).getD 0 + (lib.fromStr b.locked).getD 0 > 0 ∨ b.asset ∈ deltas)
  ((wanted.map fun b => client.marketSymbol b.asset).filter fun m => m ∉ symbolAssets).toFinset

/-- A balance is kept if its asset is held or touched, and is the quote currency or has a market. -/
def keepBalance (symbolAssets : SymbolAssets) (deltas : Deltas) (kept : Balances)
    (b : AccountBalance) : Except HistoryError Balances := do
  let free ← parseDecimal lib b.free
  let locked ← parseDecimal lib b.locked
  let heldOrTouched := free + locked > 0 ∨ b.asset ∈ deltas
  let inScope := b.asset = client.quoteCurrency ∨ client.marketSymbol b.asset ∈ symbolAssets
  pure (if heldOrTouched ∧ inScope then kept.insert b.asset (free, locked) else kept)

def prepare (allTrades : List Trade) (allFlows : List NormalizedFlow) (sinceMs : ℕ) :
    Except HistoryError Prepared := do
  let trades := allTrades.filter fun t => sinceMs ≤ t.timeMs.toNat
  let flows := allFlows.filter fun f => sinceMs ≤ f.economicTimeMs.toNat
  let symbolAssets ← (client.fetchSymbolAssetsFor (trades.map Trade.symbol).toFinset).mapError .market
  let ledgerEvents ← collectLedgerEvents lib trades flows symbolAssets
  let deltas ← perAssetDeltas lib ledgerEvents
  let balances ← client.fetchAccountBalances.mapError .market
  let more ← (client.fetchSymbolAssetsFor
    (wantedMarkets lib client symbolAssets deltas balances)).mapError .market
  let symbolAssets := symbolAssets.insertMany more.toList
  let currentBalances ← balances.foldlM (keepBalance lib client symbolAssets deltas) ∅
  pure { trades, flows, symbolAssets, deltas, currentBalances }

end Reconstruction

section History

structure DailyNav where
  dayStartMs : ℕ
  nav : ℚ
deriving DecidableEq

structure IndexPoint where
  timeMs : ℕ
  index : ℚ
deriving DecidableEq

structure HistoryResult where
  dailyNav : List DailyNav
  dailyReturns : List ℚ
  twrIndex : List IndexPoint
  earliestReliableCheckpointMs : Option ℕ
  winRate : Option WinRateResult
  pnl : PnlSummary

def DAY_MS : ℕ := 24 * 60 * 60 * 1000

/-- The loop over the days that start before `nowMs`; each turn moves on, so `nowMs` turns are enough. -/
def dayStarts (nowMs : ℕ) : ℕ → ℕ → List ℕ
  | 0, _ => []
  | turns + 1, t => if t < nowMs then t :: dayStarts nowMs turns (t + DAY_MS) else []

def checkpoints (sinceMs nowMs : ℕ) : List ℕ :=
  let cuts := sinceMs :: dayStarts nowMs nowMs ((sinceMs / DAY_MS + 1) * DAY_MS)
  if cuts.getLast? ≠ some nowMs ∧ sinceMs < nowMs then cuts ++ [nowMs] else cuts

variable (lib : Decimals) (client : MarketData)

/-- A deposit or a withdrawal. -/
def NormalizedFlow.isExternal (flow : NormalizedFlow) : Bool :=
  flow.sourceNamespace = .deposit || flow.sourceNamespace = .withdrawal

/-- What a leg, or a fee, is worth when it moves, and what it means for the profit. -/
def priceLeg (timeMs : ℕ) (isFee : Bool) (leg : AssetLeg) :
    Except HistoryError (ℚ × List PnlEvent) := do
  let amount ← parseDecimal lib leg.amount
  let price ← (resolveHistoricalPrice client leg.asset timeMs).mapError .publish
  let value := amount * price
  let moved :=
    if leg.asset ≠ client.quoteCurrency then
      [if leg.isCredit then PnlEvent.acquire leg.asset amount price
        else PnlEvent.withdraw leg.asset amount]
    else []
  let paid := if isFee then [PnlEvent.fee value] else []
  pure (if leg.isCredit then value else -value, moved ++ paid)

structure PricedFlow where
  timeMs : ℕ
  netAmount : ℚ
  pnlEvents : List PnlEvent

def priceFlow (flow : NormalizedFlow) : Except HistoryError PricedFlow := do
  let legs ← flow.legs.mapM (priceLeg lib client flow.economicTimeMs.toNat false)
  let fee ← flow.fee.toList.mapM (priceLeg lib client flow.economicTimeMs.toNat true)
  pure ⟨flow.economicTimeMs.toNat, ((legs ++ fee).map Prod.fst).sum, (legs ++ fee).flatMap Prod.snd⟩

/-- A holding with its price. -/
structure Holding where
  asset : String
  qty : ℚ
  price : ℚ

/-- The holdings at a cut that are not zero, with their prices. -/
def priceHoldings (cutMs : ℕ) (quantities : List (String × ℚ)) :
    Except HistoryError (List Holding) :=
  (quantities.filter fun q => q.2 ≠ 0).mapM fun q => do
    let price ← (resolveHistoricalPrice client q.1 cutMs).mapError .publish
    pure ⟨q.1, q.2, price⟩

def navOf (holdings : List Holding) : ℚ := (holdings.map fun h => h.qty * h.price).sum

/-- At one instant a flow comes before a valuation. -/
def before (a b : TimelineEvent) : Prop :=
  match a, b with
  | .valuation t _, .valuation t' _ => t ≤ t'
  | .valuation t _, .flow t' _ => t < t'
  | .flow t _, .valuation t' _ => t ≤ t'
  | .flow t _, .flow t' _ => t ≤ t'

instance (a b : TimelineEvent) : Decidable (before a b) := by
  unfold before
  cases a <;> cases b <;> exact inferInstance

/-- The index after each return, from the value it has before them. -/
def indexFrom : ℚ → List (DailyNav × ℚ) → List IndexPoint
  | _, [] => []
  | index, (point, r) :: rest =>
    ⟨point.dayStartMs, index * (1 + r)⟩ :: indexFrom (index * (1 + r)) rest

def twrIndexOf : List DailyNav → List ℚ → List IndexPoint
  | [], _ => []
  | first :: rest, subReturns => ⟨first.dayStartMs, 1⟩ :: indexFrom 1 (rest.zip subReturns)

def tradeFill (trade : Trade) : Except HistoryError (String × Fill) := do
  let price ← parseDecimal lib trade.price
  let qty ← parseDecimal lib trade.qty
  pure (trade.symbol, ⟨trade.timeMs.toNat, qty, price, trade.isBuyer⟩)

def computeOverallWinRate (trades : List Trade) : Except HistoryError (Option WinRateResult) := do
  let fills ← trades.mapM (tradeFill lib)
  let bySymbol : Std.TreeMap String (List Fill) := fills.foldl (fun bySymbol f =>
    bySymbol.alter f.1 fun fills => some (fills.getD [] ++ [f.2])) ∅
  let rates := bySymbol.toList.filterMap fun s => computeWinRate s.2
  let totalClosed := (rates.map WinRateResult.closedRoundTrips).sum
  let totalWins := (rates.map WinRateResult.wins).sum
  pure (if totalClosed = 0 then none else some ⟨totalClosed, totalWins, totalWins / totalClosed⟩)

/-- The two priced legs of a fill and its fee. -/
def tradePnlEvents (symbolAssets : SymbolAssets) (trade : Trade) :
    Except HistoryError (List PnlEvent) := do
  let assets ← match symbolAssets[trade.symbol]? with
    | none => .error (.unknownSymbol trade.id trade.symbol)
    | some assets => .ok assets
  let quoteUsdt ← (resolveHistoricalPrice client assets.2 trade.timeMs.toNat).mapError .publish
  let feeAssetUsdt ←
    (resolveHistoricalPrice client trade.commissionAsset trade.timeMs.toNat).mapError .publish
  let price ← parseDecimal lib trade.price
  let quantity ← parseDecimal lib trade.qty
  let commission ← parseDecimal lib trade.commission
  let baseUsdt := price * quoteUsdt
  let quoteQuantity := quantity * price
  let baseEvent := if trade.isBuyer then PnlEvent.acquire assets.1 quantity baseUsdt
    else PnlEvent.dispose assets.1 quantity baseUsdt
  let quoteEvent := if trade.isBuyer then PnlEvent.dispose assets.2 quoteQuantity quoteUsdt
    else PnlEvent.acquire assets.2 quoteQuantity quoteUsdt
  pure ((if assets.1 ≠ client.quoteCurrency then [baseEvent] else []) ++
    (if assets.2 ≠ client.quoteCurrency then [quoteEvent] else []) ++
    [.fee (commission * feeAssetUsdt)])

/-- The quantities and the priced holdings at each checkpoint, and the flows with what they are worth. -/
structure Valued where
  quantities : List (List (String × ℚ))
  holdings : List (List Holding)
  flows : List PricedFlow

def valueCheckpoints (p : Prepared) (sinceMs nowMs : ℕ) : Except HistoryError Valued := do
  let flows ← (p.flows.filter NormalizedFlow.isExternal).mapM (priceFlow lib client)
  let quantities ← (checkpoints sinceMs nowMs).mapM fun cut =>
    quantitiesAt cut nowMs p.currentBalances p.deltas
  let holdings ← ((checkpoints sinceMs nowMs).zip quantities).mapM fun c =>
    priceHoldings client c.1 c.2
  pure { quantities, holdings, flows }

def dailyNavOf (cuts : List ℕ) (holdings : List (List Holding)) : List DailyNav :=
  (cuts.zip holdings).map fun c => ⟨c.1, navOf c.2⟩

/-- Valuations and flows in the order they are counted in. -/
def timelineOf (dailyNav : List DailyNav) (flows : List PricedFlow) : List TimelineEvent :=
  ((dailyNav.map fun d => TimelineEvent.valuation d.dayStartMs d.nav) ++
    flows.map fun f => TimelineEvent.flow f.timeMs f.netAmount).insertionSort before

def pnlOf (v : Valued) (tradeEvents : List (ℕ × List PnlEvent)) : PnlSummary :=
  let timed := (v.flows.map fun f => (f.timeMs, f.pnlEvents)) ++ tradeEvents
  let events := (timed.flatMap fun e => e.2.map fun event => (e.1, event)).insertionSort fun a b =>
    a.1 ≤ b.1
  let openings := (v.holdings.headD []).filterMap fun h =>
    if h.asset ≠ client.quoteCurrency then some (h.asset, h.qty, h.price) else none
  let marks := (v.holdings.getLastD []).map fun h => (h.asset, h.price)
  let currentQuantities := (v.quantities.getLastD []).filter fun q => q.1 ≠ client.quoteCurrency
  computePnl openings (events.map Prod.snd) (.ofList currentQuantities) (.ofList marks)

def computeHistory (allTrades : List Trade) (allFlows : List NormalizedFlow) (sinceMs nowMs : ℕ) :
    Except HistoryError HistoryResult := do
  let p ← prepare lib client allTrades allFlows sinceMs
  let v ← valueCheckpoints lib client p sinceMs nowMs
  let dailyNav := dailyNavOf (checkpoints sinceMs nowMs) v.holdings
  let twr ← (computeTwr (timelineOf dailyNav v.flows)).mapError .return_
  let winRate ← computeOverallWinRate lib p.trades
  let tradeEvents ← p.trades.mapM fun trade => do
    let events ← tradePnlEvents lib client p.symbolAssets trade
    pure (trade.timeMs.toNat, events)
  pure
    { dailyNav
      dailyReturns := twr.subReturns
      twrIndex := twrIndexOf dailyNav twr.subReturns
      earliestReliableCheckpointMs := some sinceMs
      winRate
      pnl := pnlOf client v tradeEvents }

end History

end Linvesther.Worker
