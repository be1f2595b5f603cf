import Linvesther.Base.Failures
import Linvesther.Worker.FlowNeutrality

/-! Every price that the figures of an account are computed with is asked for whatever the amount that it is for: a
price that is missing for an amount of nothing takes all figures away. -/

namespace Linvesther.Worker

open Transaction Domain

section Requests

/-- A price that was asked for and not found, or a symbol that is not known. -/
def HistoryError.Unpriced : HistoryError → Prop
  | .unknownSymbol _ _ => True
  | .publish _ => True
  | _ => False

variable (lib : Decimals) (client : MarketData) (catalog : SymbolAssets) (allTrades : List Trade)
  (allFlows : List NormalizedFlow) (sinceMs nowMs : ℕ)

def Priced (asset : String) (timeMs : ℕ) : Prop :=
  asset = client.quoteCurrency ∨ ∃ price, client.priceAtInstant asset timeMs = .ok price

/-- An exchange that answers, and lists the symbols of the trades. -/
structure Knows : Prop where
  lists : Lists client catalog
  answers : ∀ symbols, ∃ found, client.fetchSymbolAssetsFor symbols = .ok found
  traded : ∀ t ∈ allTrades, t.symbol ∈ catalog

/-- There is a price for every asset of which something moves, when it moves, and of which something is held, at the
checkpoints. -/
structure AmountsPriced : Prop where
  moved : ∀ m ∈ movesSince lib catalog allTrades allFlows sinceMs, m.2.delta ≠ 0 → Priced client m.1 m.2.timeMs
  held : ∀ p, prepare lib client allTrades allFlows sinceMs = .ok p → ∀ cut ∈ checkpoints sinceMs nowMs,
    ∀ quantities, quantitiesAt cut nowMs p.currentBalances p.deltas = .ok quantities →
      ∀ q ∈ quantities, q.2 ≠ 0 → Priced client q.1 cut

/-- What a fill asks prices for: its quote asset and its commission. -/
def Trade.asked (t : Trade) : List Move := (t.moves lib catalog).tail

/-- The same for what is asked a price of although nothing of it moves. -/
structure NothingsPriced : Prop where
  fills : ∀ t ∈ allTrades, sinceMs ≤ t.timeMs.toNat → ∀ m ∈ t.asked lib catalog, m.2.delta = 0 →
    Priced client m.1 m.2.timeMs
  flows : ∀ f ∈ allFlows, sinceMs ≤ f.economicTimeMs.toNat → f.isExternal = true → ∀ m ∈ f.moves lib,
    m.2.delta = 0 → Priced client m.1 m.2.timeMs

/-- The market with a price where it has none. -/
def MarketData.filled : MarketData :=
  { client with
    priceAtInstant := fun asset timeMs =>
      match client.priceAtInstant asset timeMs with
      | .ok price => .ok price
      | .error _ => .ok 0 }

variable {lib client catalog allTrades allFlows sinceMs nowMs}

theorem resolveHistoricalPrice_priced {asset : String} {timeMs : ℕ} :
    (∃ price, resolveHistoricalPrice client asset timeMs = .ok price) ↔ Priced client asset timeMs := by
  unfold resolveHistoricalPrice Priced
  split_ifs with hquote
  · simp [hquote]
  · simp only [mapError_ok, hquote, false_or]

theorem parseDecimal_avoids (s : String) : Avoids HistoryError.Unpriced (parseDecimal lib s) := by
  intro e h
  unfold parseDecimal at h
  split at h
  · cases h
  · cases h
    exact id

/-- What is priced does not fail. -/
theorem resolved_avoids {asset : String} {timeMs : ℕ} (h : Priced client asset timeMs) :
    Avoids HistoryError.Unpriced ((resolveHistoricalPrice client asset timeMs).mapError .publish) := by
  obtain ⟨price, hprice⟩ := resolveHistoricalPrice_priced.2 h
  rw [hprice]
  exact avoids_ok price

end Requests

section Prepare

variable {lib : Decimals} {client : MarketData} {catalog : SymbolAssets} {allTrades : List Trade}
  {allFlows : List NormalizedFlow} {sinceMs nowMs : ℕ} {p : Prepared}

/-- All that is asked of the trades and flows before a price is. -/
theorem prepare_avoids (hknows : Knows client catalog allTrades) :
    Avoids HistoryError.Unpriced (prepare lib client allTrades allFlows sinceMs) := by
  have hfetched (symbols : Finset String) :
      Avoids HistoryError.Unpriced ((client.fetchSymbolAssetsFor symbols).mapError .market) :=
    avoids_mapError fun _ => id
  unfold prepare
  refine (hfetched _).bind fun symbolAssets hsymbols => ?_
  have hlisted : ∀ t ∈ allTrades.filter fun t => sinceMs ≤ t.timeMs.toNat, t.symbol ∈ symbolAssets := by
    intro t ht
    rw [mapError_ok] at hsymbols
    rw [Std.TreeMap.mem_iff_isSome_getElem?, hknows.lists.fetch _ _ hsymbols,
      if_pos (List.mem_toFinset.2 (List.mem_map_of_mem ht)), ← Std.TreeMap.mem_iff_isSome_getElem?]
    exact hknows.traded t (List.mem_of_mem_filter ht)
  refine Avoids.bind ?_ fun events _ => Avoids.bind ?_ fun deltas _ => Avoids.bind ?_ fun balances _ =>
    (hfetched _).bind fun more _ => Avoids.bind ?_ fun kept _ => avoids_pure _
  · unfold collectLedgerEvents
    refine Avoids.bind (avoids_mapM fun t ht => ?_) fun _ _ => avoids_pure _
    obtain ⟨assets, hassets⟩ := Option.isSome_iff_exists.1
      (Std.TreeMap.mem_iff_isSome_getElem?.1 (hlisted t ht))
    unfold tradeEvent
    rw [hassets]
    exact (parseDecimal_avoids _).bind fun _ _ => (parseDecimal_avoids _).bind fun _ _ => avoids_pure _
  · refine avoids_foldlM (fun deltas event _ => avoids_foldlM (fun deltas leg _ => ?_) deltas) ∅
    exact (parseDecimal_avoids _).bind fun _ _ => avoids_pure _
  · exact avoids_mapError fun _ => id
  · refine avoids_foldlM (fun kept b _ => ?_) ∅
    exact (parseDecimal_avoids _).bind fun _ _ => (parseDecimal_avoids _).bind fun _ _ => avoids_pure _

theorem prepare_trades (h : prepare lib client allTrades allFlows sinceMs = .ok p) :
    p.trades = allTrades.filter fun t => sinceMs ≤ t.timeMs.toNat := by
  simp only [prepare, bind_ok, pure_ok, mapError_ok] at h
  obtain ⟨-, -, -, -, -, -, -, -, -, -, -, -, rfl⟩ := h
  rfl

/-- The assets of a trade are those of the catalog. -/
theorem prepare_symbolAssets (hknows : Knows client catalog allTrades)
    (h : prepare lib client allTrades allFlows sinceMs = .ok p) {t : Trade} (ht : t ∈ p.trades) :
    ∃ assets, p.symbolAssets[t.symbol]? = some assets ∧ catalog.getD t.symbol ("", "") = assets := by
  obtain ⟨asked, hasked, hmarkets⟩ := prepare_markets hknows.lists h
  have hall : t ∈ allTrades := by
    rw [prepare_trades h] at ht
    exact List.mem_of_mem_filter ht
  obtain ⟨assets, hassets⟩ := Option.isSome_iff_exists.1 (Std.TreeMap.mem_iff_isSome_getElem?.1 (hknows.traded t hall))
  refine ⟨assets, ?_, by rw [Std.TreeMap.getD_eq_getD_getElem?, hassets]; rfl⟩
  rw [hmarkets, if_pos (hasked t ht), hassets]

end Prepare

section Figures

variable {lib : Decimals} {client : MarketData} {catalog : SymbolAssets} {allTrades : List Trade}
  {allFlows : List NormalizedFlow} {sinceMs nowMs : ℕ} {p : Prepared}

/-- What moves, and what does not, is priced. -/
theorem moves_priced (hpriced : AmountsPriced lib client catalog allTrades allFlows sinceMs nowMs)
    (hnothing : NothingsPriced lib client catalog allTrades allFlows sinceMs) :
    (∀ t ∈ allTrades, sinceMs ≤ t.timeMs.toNat → ∀ m ∈ t.asked lib catalog, Priced client m.1 m.2.timeMs) ∧
      ∀ f ∈ allFlows, sinceMs ≤ f.economicTimeMs.toNat → f.isExternal = true → ∀ m ∈ f.moves lib,
        Priced client m.1 m.2.timeMs := by
  have hsome (t : Trade) (ht : t ∈ allTrades) (hsince : sinceMs ≤ t.timeMs.toNat) (m : Move)
      (hm : m ∈ t.asked lib catalog) : m ∈ movesSince lib catalog allTrades allFlows sinceMs := by
    refine List.mem_append_left _ (List.mem_flatMap.2 ⟨t, ?_, List.mem_of_mem_tail hm⟩)
    exact List.mem_filter.2 ⟨ht, decide_eq_true hsince⟩
  refine ⟨fun t ht hsince m hm => ?_, fun f hf hsince hexternal m hm => ?_⟩
  · by_cases hzero : m.2.delta = 0
    · exact hnothing.fills t ht hsince m hm hzero
    · exact hpriced.moved m (hsome t ht hsince m hm) hzero
  · by_cases hzero : m.2.delta = 0
    · exact hnothing.flows f hf hsince hexternal m hm hzero
    · refine hpriced.moved m (List.mem_append_right _ (List.mem_flatMap.2 ⟨f, ?_, hm⟩)) hzero
      exact List.mem_filter.2 ⟨hf, decide_eq_true hsince⟩

theorem asked_eq (t : Trade) : t.asked lib catalog =
    [move t.timeMs.toNat (catalog.getD t.symbol ("", "")).2 (amountOf lib t.price * amountOf lib t.qty)
        (!t.isBuyer),
      move t.timeMs.toNat t.commissionAsset (amountOf lib t.commission) false] := rfl

theorem priceFlow_avoids {f : NormalizedFlow} (h : ∀ m ∈ f.moves lib, Priced client m.1 m.2.timeMs) :
    Avoids HistoryError.Unpriced (priceFlow lib client f) := by
  have hleg (isFee : Bool) (l : AssetLeg) (hl : l ∈ f.legs ++ f.fee.toList) :
      Avoids HistoryError.Unpriced (priceLeg lib client f.economicTimeMs.toNat isFee l) := by
    have hpriced : Priced client l.asset f.economicTimeMs.toNat :=
      h (move f.economicTimeMs.toNat l.asset (amountOf lib l.amount) l.isCredit) (List.mem_map_of_mem hl)
    exact (parseDecimal_avoids _).bind fun _ _ => (resolved_avoids hpriced).bind fun _ _ => avoids_pure _
  unfold priceFlow
  refine Avoids.bind (avoids_mapM fun l hl => hleg _ l (List.mem_append_left _ hl)) fun _ _ => ?_
  exact Avoids.bind (avoids_mapM fun l hl => hleg _ l (List.mem_append_right _ hl)) fun _ _ => avoids_pure _

theorem tradePnlEvents_avoids (hknows : Knows client catalog allTrades)
    (hprepare : prepare lib client allTrades allFlows sinceMs = .ok p) {t : Trade} (ht : t ∈ p.trades)
    (h : ∀ m ∈ t.asked lib catalog, Priced client m.1 m.2.timeMs) :
    Avoids HistoryError.Unpriced (tradePnlEvents lib client p.symbolAssets t) := by
  obtain ⟨assets, hassets, hcatalog⟩ := prepare_symbolAssets hknows hprepare ht
  rw [asked_eq, hcatalog] at h
  obtain ⟨hquote, hrest⟩ := List.forall_mem_cons.1 h
  have hcommission := hrest _ List.mem_cons_self
  unfold tradePnlEvents
  rw [hassets]
  refine (avoids_ok assets).bind fun found hfound => ?_
  cases hfound
  exact (resolved_avoids hquote).bind fun _ _ => (resolved_avoids hcommission).bind fun _ _ =>
    (parseDecimal_avoids _).bind fun _ _ => (parseDecimal_avoids _).bind fun _ _ =>
      (parseDecimal_avoids _).bind fun _ _ => avoids_pure _

theorem quantitiesAt_avoids (cutMs : ℕ) (balances : Balances) (deltas : Deltas) :
    Avoids HistoryError.Unpriced (quantitiesAt cutMs nowMs balances deltas) := by
  unfold quantitiesAt
  exact avoids_mapM fun b _ => Avoids.bind (avoids_mapError fun _ => id) fun _ _ => avoids_pure _

theorem valueCheckpoints_avoids (hpriced : AmountsPriced lib client catalog allTrades allFlows sinceMs nowMs)
    (hflows : ∀ f ∈ allFlows, sinceMs ≤ f.economicTimeMs.toNat → f.isExternal = true → ∀ m ∈ f.moves lib,
      Priced client m.1 m.2.timeMs)
    (hprepare : prepare lib client allTrades allFlows sinceMs = .ok p) :
    Avoids HistoryError.Unpriced (valueCheckpoints lib client p sinceMs nowMs) := by
  unfold valueCheckpoints
  refine Avoids.bind (avoids_mapM fun f hf => ?_) fun flows _ =>
    Avoids.bind (avoids_mapM fun cut _ => quantitiesAt_avoids _ _ _) fun quantities hquantities =>
      Avoids.bind (avoids_mapM fun c hc => ?_) fun _ _ => avoids_pure _
  · rw [prepare_flows hprepare] at hf
    obtain ⟨hmem, hexternal⟩ := List.mem_filter.1 hf
    obtain ⟨hin, hsince⟩ := List.mem_filter.1 hmem
    exact priceFlow_avoids (hflows f hin (of_decide_eq_true hsince) hexternal)
  · rw [mapM_ok] at hquantities
    have hcut : c.1 ∈ checkpoints sinceMs nowMs := (List.of_mem_zip hc).1
    have hquantity : quantitiesAt c.1 nowMs p.currentBalances p.deltas = .ok c.2 :=
      List.forall₂_zip hquantities hc
    unfold priceHoldings
    refine avoids_mapM fun q hq => ?_
    obtain ⟨hin, hne⟩ := List.mem_filter.1 hq
    have hheld := hpriced.held p hprepare c.1 hcut c.2 hquantity q hin (of_decide_eq_true hne)
    exact (resolved_avoids hheld).bind fun _ _ => avoids_pure _

theorem computeOverallWinRate_avoids (trades : List Trade) :
    Avoids HistoryError.Unpriced (computeOverallWinRate lib trades) := by
  unfold computeOverallWinRate
  refine Avoids.bind (avoids_mapM fun t _ => ?_) fun _ _ => avoids_pure _
  exact (parseDecimal_avoids _).bind fun _ _ => (parseDecimal_avoids _).bind fun _ _ => avoids_pure _

theorem computeHistory_avoids (hknows : Knows client catalog allTrades)
    (hpriced : AmountsPriced lib client catalog allTrades allFlows sinceMs nowMs)
    (hnothing : NothingsPriced lib client catalog allTrades allFlows sinceMs) :
    Avoids HistoryError.Unpriced (computeHistory lib client allTrades allFlows sinceMs nowMs) := by
  obtain ⟨hfills, hflows⟩ := moves_priced hpriced hnothing
  unfold computeHistory
  refine (prepare_avoids hknows).bind fun p hprepare => ?_
  refine (valueCheckpoints_avoids hpriced hflows hprepare).bind fun v _ => ?_
  refine Avoids.bind (avoids_mapError fun _ => id) fun twr _ => ?_
  refine (computeOverallWinRate_avoids _).bind fun winRate _ => ?_
  refine Avoids.bind (avoids_mapM fun t ht => ?_) fun _ _ => avoids_pure _
  have hin := ht
  rw [prepare_trades hprepare] at hin
  obtain ⟨hmem, hsince⟩ := List.mem_filter.1 hin
  refine (tradePnlEvents_avoids hknows hprepare ht ?_).bind fun _ _ => avoids_pure _
  exact hfills t hmem (of_decide_eq_true hsince)

/-- What was priced of a flow and of a fill. -/
theorem priceFlow_priced {f : NormalizedFlow} {priced : PricedFlow} (h : priceFlow lib client f = .ok priced) :
    ∀ m ∈ f.moves lib, Priced client m.1 m.2.timeMs := by
  have hleg (isFee : Bool) (l : AssetLeg) (v : ℚ × List PnlEvent)
      (hl : priceLeg lib client f.economicTimeMs.toNat isFee l = .ok v) :
      Priced client l.asset f.economicTimeMs.toNat := by
    simp only [priceLeg, bind_ok, mapError_ok] at hl
    obtain ⟨-, -, price, hprice, -⟩ := hl
    exact resolveHistoricalPrice_priced.1 ⟨price, hprice⟩
  simp only [priceFlow, bind_ok, pure_ok] at h
  obtain ⟨legs, hlegs, fee, hfee, -⟩ := h
  intro m hm
  obtain ⟨l, hl, rfl⟩ := List.mem_map.1 hm
  rcases List.mem_append.1 hl with hl | hl
  · obtain ⟨v, -, hv⟩ := (exists_of_forall₂ (mapM_ok.1 hlegs)).1 l hl
    exact hleg false l v hv
  · obtain ⟨v, -, hv⟩ := (exists_of_forall₂ (mapM_ok.1 hfee)).1 l hl
    exact hleg true l v hv

theorem tradePnlEvents_priced (hknows : Knows client catalog allTrades)
    (hprepare : prepare lib client allTrades allFlows sinceMs = .ok p) {t : Trade} (ht : t ∈ p.trades)
    {events : List PnlEvent} (h : tradePnlEvents lib client p.symbolAssets t = .ok events) :
    ∀ m ∈ t.asked lib catalog, Priced client m.1 m.2.timeMs := by
  obtain ⟨assets, hassets, hcatalog⟩ := prepare_symbolAssets hknows hprepare ht
  unfold tradePnlEvents at h
  rw [hassets] at h
  simp only [bind_ok, mapError_ok, Except.ok.injEq, exists_eq_left'] at h
  obtain ⟨quoteUsdt, hquote, feeAssetUsdt, hfee, -⟩ := h
  intro m hm
  rw [asked_eq, hcatalog] at hm
  simp only [List.mem_cons, List.not_mem_nil, or_false] at hm
  rcases hm with rfl | rfl
  · exact resolveHistoricalPrice_priced.1 ⟨quoteUsdt, hquote⟩
  · exact resolveHistoricalPrice_priced.1 ⟨feeAssetUsdt, hfee⟩

/-- Figures that are there have asked for every price. -/
theorem computeHistory_priced {result : HistoryResult} (hknows : Knows client catalog allTrades)
    (h : computeHistory lib client allTrades allFlows sinceMs nowMs = .ok result) :
    NothingsPriced lib client catalog allTrades allFlows sinceMs := by
  simp only [computeHistory, bind_ok, mapError_ok] at h
  obtain ⟨p, hprepare, v, hvalued, -, -, -, -, tradeEvents, htrades, -⟩ := h
  refine ⟨fun t ht hsince m hm _ => ?_, fun f hf hsince hexternal m hm _ => ?_⟩
  · have hin : t ∈ p.trades := by
      rw [prepare_trades hprepare]
      exact List.mem_filter.2 ⟨ht, decide_eq_true hsince⟩
    obtain ⟨timed, -, hevents⟩ := (exists_of_forall₂ (mapM_ok.1 htrades)).1 t hin
    rw [bind_ok] at hevents
    obtain ⟨events, hevents, -⟩ := hevents
    exact tradePnlEvents_priced hknows hprepare hin hevents m hm
  · have hin : f ∈ p.flows.filter NormalizedFlow.isExternal := by
      rw [prepare_flows hprepare]
      exact List.mem_filter.2 ⟨List.mem_filter.2 ⟨hf, decide_eq_true hsince⟩, hexternal⟩
    have hflows := (valueCheckpoints_ok hvalued).1
    obtain ⟨priced, -, hpriced⟩ := (exists_of_forall₂ (mapM_ok.1 hflows)).1 f hin
    exact priceFlow_priced hpriced m hm

end Figures

section Filled

variable {lib : Decimals} {client : MarketData} {catalog : SymbolAssets} {allTrades : List Trade}
  {allFlows : List NormalizedFlow} {sinceMs nowMs : ℕ}

theorem resolved_upTo (asset : String) (timeMs : ℕ) :
    UpTo HistoryError.Unpriced ((resolveHistoricalPrice client asset timeMs).mapError .publish)
      ((resolveHistoricalPrice client.filled asset timeMs).mapError .publish) := by
  unfold resolveHistoricalPrice MarketData.filled
  dsimp only
  split_ifs
  · exact .refl _
  · cases client.priceAtInstant asset timeMs with
    | ok price => exact .refl _
    | error e => exact .inr ⟨.publish _, trivial, rfl⟩

theorem priceFlow_upTo (f : NormalizedFlow) :
    UpTo HistoryError.Unpriced (priceFlow lib client f) (priceFlow lib client.filled f) := by
  have hleg (isFee : Bool) (l : AssetLeg) :
      UpTo HistoryError.Unpriced (priceLeg lib client f.economicTimeMs.toNat isFee l)
        (priceLeg lib client.filled f.economicTimeMs.toNat isFee l) :=
    (UpTo.refl _).bind fun _ => (resolved_upTo _ _).bind fun _ => .refl _
  exact (upTo_mapM fun l _ => hleg false l).bind fun _ => (upTo_mapM fun l _ => hleg true l).bind fun _ => .refl _

theorem priceHoldings_upTo (cutMs : ℕ) (quantities : List (String × ℚ)) :
    UpTo HistoryError.Unpriced (priceHoldings client cutMs quantities)
      (priceHoldings client.filled cutMs quantities) :=
  upTo_mapM fun _ _ => (resolved_upTo _ _).bind fun _ => .refl _

theorem tradePnlEvents_upTo (symbolAssets : SymbolAssets) (t : Trade) :
    UpTo HistoryError.Unpriced (tradePnlEvents lib client symbolAssets t)
      (tradePnlEvents lib client.filled symbolAssets t) := by
  unfold tradePnlEvents
  cases symbolAssets[t.symbol]? with
  | none => exact .refl _
  | some assets =>
    exact (UpTo.refl (.ok assets)).bind fun _ => (resolved_upTo _ _).bind fun _ =>
      (resolved_upTo _ _).bind fun _ => .refl _

/-- With prices where there are none the figures are the same, or were missing for want of one. -/
theorem computeHistory_upTo :
    UpTo HistoryError.Unpriced (computeHistory lib client allTrades allFlows sinceMs nowMs)
      (computeHistory lib client.filled allTrades allFlows sinceMs nowMs) := by
  have hvalued (p : Prepared) : UpTo HistoryError.Unpriced (valueCheckpoints lib client p sinceMs nowMs)
      (valueCheckpoints lib client.filled p sinceMs nowMs) :=
    (upTo_mapM fun f _ => priceFlow_upTo f).bind fun _ => (UpTo.refl _).bind fun _ =>
      (upTo_mapM fun _ _ => priceHoldings_upTo _ _).bind fun _ => .refl _
  refine (UpTo.refl _).bind fun p => (hvalued p).bind fun v => (UpTo.refl _).bind fun twr =>
    (UpTo.refl _).bind fun winRate => ?_
  exact (upTo_mapM fun t _ => (tradePnlEvents_upTo _ t).bind fun _ => .refl _).bind fun _ => .refl _

/-- The figures do not fail for want of a price or a symbol if there are also prices for what is asked about although
nothing of it moves; and only then, where nothing else is in the way of them. -/
theorem history_prices_iff (hknows : Knows client catalog allTrades)
    (hpriced : AmountsPriced lib client catalog allTrades allFlows sinceMs nowMs) :
    (NothingsPriced lib client catalog allTrades allFlows sinceMs →
        Avoids HistoryError.Unpriced (computeHistory lib client allTrades allFlows sinceMs nowMs)) ∧
      ∀ result, computeHistory lib client.filled allTrades allFlows sinceMs nowMs = .ok result →
        (Avoids HistoryError.Unpriced (computeHistory lib client allTrades allFlows sinceMs nowMs) ↔
          NothingsPriced lib client catalog allTrades allFlows sinceMs) := by
  refine ⟨computeHistory_avoids hknows hpriced, fun result hresult => ⟨fun havoids => ?_, ?_⟩⟩
  · exact computeHistory_priced hknows ((computeHistory_upTo.eq havoids).trans hresult)
  · exact computeHistory_avoids hknows hpriced

theorem history_prices_niche :
    Avoids HistoryError.Unpriced (computeHistory exampleDecimals
      (nicheMarket [⟨"USDT", "20", "0"⟩, ⟨"NICHE", "0", "0"⟩]) boughtAndSold [] 0 5000) := by
  have hall (asset : String) (timeMs : ℕ) :
      Priced (nicheMarket [⟨"USDT", "20", "0"⟩, ⟨"NICHE", "0", "0"⟩]) asset timeMs := .inr ⟨10, rfl⟩
  refine (history_prices_iff ⟨nicheMarket_lists _, fun _ => ⟨_, rfl⟩, by decide +kernel⟩
    ⟨fun _ _ _ => hall _ _, fun _ _ _ _ _ _ _ _ _ => hall _ _⟩).1 ⟨fun _ _ _ _ _ _ => hall _ _, ?_⟩
  exact fun _ _ _ _ _ _ _ => hall _ _

/-- Two are bought, and no fee is taken in any asset. -/
def boughtFree : List Trade := [⟨"NICHEUSDT", 1, "10", "2", "0", "", 1000, true⟩]

/-- The market of the other example, which knows no price of an asset without a name. -/
def namedMarket : MarketData :=
  { nicheMarket [⟨"USDT", "0", "0"⟩, ⟨"NICHE", "2", "0"⟩] with
    priceAtInstant := fun asset timeMs =>
      if asset = "" ∧ timeMs = 1000 then .error ⟨"Invalid symbol."⟩ else .ok 10 }

theorem fee_free_fill_unpriced :
    Knows namedMarket nicheCatalog boughtFree ∧
      AmountsPriced exampleDecimals namedMarket nicheCatalog boughtFree [] 0 5000 ∧
      ¬ Avoids HistoryError.Unpriced (computeHistory exampleDecimals namedMarket boughtFree [] 0 5000) := by
  have hcuts : ∀ cut ∈ checkpoints 0 5000, cut ≠ 1000 := by decide +kernel
  have hmoves : ∀ m ∈ movesSince exampleDecimals nicheCatalog boughtFree [] 0, m.2.delta ≠ 0 → m.1 ≠ "" := by
    decide +kernel
  have hpriced (asset : String) (timeMs : ℕ) (h : ¬ (asset = "" ∧ timeMs = 1000)) :
      Priced namedMarket asset timeMs := .inr ⟨10, if_neg h⟩
  refine ⟨⟨⟨(nicheMarket_lists []).fetch⟩, fun _ => ⟨_, rfl⟩, by decide +kernel⟩, ⟨fun m hm hne => ?_, ?_⟩, ?_⟩
  · exact hpriced _ _ fun hboth => hmoves m hm hne hboth.1
  · exact fun _ _ cut hcut _ _ _ _ _ => hpriced _ _ fun hboth => hcuts cut hcut hboth.2
  · have hfails : (match computeHistory exampleDecimals namedMarket boughtFree [] 0 5000 with
        | .error (.publish _) => true
        | _ => false) = true := by
      decide +kernel
    intro havoids
    split at hfails
    · rename_i e heq
      exact havoids _ heq trivial
    · cases hfails

end Filled

end Linvesther.Worker
