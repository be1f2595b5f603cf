import Linvesther.Base.StableSort
import Linvesther.Collector.TradeStore
import Linvesther.Worker.FlowNeutrality

/-! The collected trades and flows are read in the order of their time alone: what the figures and the evidence of a
proof make of those of one millisecond. -/

namespace Linvesther.Worker

open Transaction Domain StableSort

section Model

open Collector (StoredTrade)

/-- What `ORDER BY time_ms ASC` promises of the rows. -/
structure Fetched {Row : Type} [DecidableEq Row] (time : Row → ℕ) (stored : Finset Row) (rows : List Row) : Prop where
  once : rows.Nodup
  all : rows.toFinset = stored
  sorted : rows.Pairwise fun a b => time a ≤ time b

abbrev tradeTime (t : StoredTrade) : ℕ := t.timeMs.toNat

abbrev flowTime (f : NormalizedFlow) : ℕ := f.economicTimeMs.toNat

inductive LeafValue where
  | string (s : String)
  | number (n : ℕ)
  | bool (b : Bool)
deriving DecidableEq

def tradeLeaf (t : StoredTrade) : List (String × LeafValue) :=
  [("symbol", .string t.symbol), ("id", .number t.id.toNat), ("orderId", .number t.orderId.toNat),
   ("price", .string t.price), ("qty", .string t.qty), ("commission", .string t.commission),
   ("commissionAsset", .string t.commissionAsset), ("timeMs", .number t.timeMs.toNat), ("isBuyer", .bool t.isBuyer)]

/-- The trades in the raw evidence that the prover commits to. -/
def rawEvidence (trades : List StoredTrade) : List (List (String × LeafValue)) := trades.map tradeLeaf

variable (lib : Decimals)

/-- The figures and the evidence are the same in whichever order the database returns the rows. -/
def OrderFree (T : Finset StoredTrade) (F : Finset NormalizedFlow) : Prop :=
  ∀ trades trades' flows flows', Fetched tradeTime T trades → Fetched tradeTime T trades' →
    Fetched flowTime F flows → Fetched flowTime F flows' →
    (∀ client sinceMs nowMs,
      (computeHistory lib client (trades.map StoredTrade.toTrade) flows sinceMs nowMs).toOption =
        (computeHistory lib client (trades'.map StoredTrade.toTrade) flows' sinceMs nowMs).toOption) ∧
      rawEvidence trades = rawEvidence trades'

/-- No two trades of one millisecond. -/
def TimesApart (T : Finset StoredTrade) : Prop := ∀ t ∈ T, ∀ t' ∈ T, tradeTime t = tradeTime t' → t = t'

/-- What a leg means for the profit, at the prices of an instant. -/
def legPnlEvents (quote : String) (price : String → ℚ) (isFee : Bool) (leg : AssetLeg) : List PnlEvent :=
  (if leg.asset ≠ quote then
    [if leg.isCredit then PnlEvent.acquire leg.asset (amountOf lib leg.amount) (price leg.asset)
      else PnlEvent.withdraw leg.asset (amountOf lib leg.amount)]
  else []) ++ if isFee then [PnlEvent.fee (amountOf lib leg.amount * price leg.asset)] else []

def flowPnlEvents (quote : String) (price : String → ℚ) (f : NormalizedFlow) : List PnlEvent :=
  f.legs.flatMap (legPnlEvents lib quote price false) ++ f.fee.toList.flatMap (legPnlEvents lib quote price true)

/-- The lot of an asset after an event, where it may have none before. -/
def PnlEvent.onEntry (asset : String) (lot : Option Lot) : PnlEvent → Option Lot
  | .acquire a quantity unitPrice =>
    if a = asset then some ((lot.getD .empty).acquire quantity unitPrice) else lot
  | .dispose a quantity unitPrice =>
    if a = asset then some ((lot.getD .empty).dispose quantity unitPrice) else lot
  | .withdraw a quantity => if a = asset then lot.map fun l => l.withdraw quantity else lot
  | .fee _ => lot

/-- Two flows of one instant that leave every lot the same, whichever comes first. -/
def Commute (a b : NormalizedFlow) : Prop :=
  ∀ (quote : String) (price : String → ℚ) (asset : String) (lot : Option Lot),
    (flowPnlEvents lib quote price a ++ flowPnlEvents lib quote price b).foldl (PnlEvent.onEntry asset) lot =
      (flowPnlEvents lib quote price b ++ flowPnlEvents lib quote price a).foldl (PnlEvent.onEntry asset) lot

/-- The deposits and withdrawals of one millisecond commute. -/
def FlowsCommute (F : Finset NormalizedFlow) : Prop :=
  ∀ a ∈ F, ∀ b ∈ F, a.isExternal = true → b.isExternal = true → flowTime a = flowTime b → Commute lib a b

end Model

section Rows

variable {Row : Type} [DecidableEq Row] {time : Row → ℕ} {stored : Finset Row} {rows rows' : List Row}

theorem Fetched.mem (h : Fetched time stored rows) {r : Row} : r ∈ rows ↔ r ∈ stored := by
  rw [← h.all, List.mem_toFinset]

theorem Fetched.perm (h : Fetched time stored rows) (h' : Fetched time stored rows') : rows.Perm rows' :=
  (List.perm_ext_iff_of_nodup h.once h'.once).2 fun _ => h.mem.trans h'.mem.symm

theorem Fetched.eq_of_apart (h : Fetched time stored rows) (h' : Fetched time stored rows')
    (hapart : ∀ r ∈ stored, ∀ r' ∈ stored, time r = time r' → r = r') : rows = rows' := by
  refine (h.perm h').eq_of_pairwise (fun a b ha hb hab hba => ?_) h.sorted h'.sorted
  exact hapart a (h.mem.1 ha) b (h'.mem.1 hb) (le_antisymm hab hba)

/-- The rows in the order of the time, each at one place among those of its time. -/
theorem fetched_insertionSort (hnodup : rows.Nodup) (hall : rows.toFinset = stored) :
    Fetched time stored (rows.insertionSort fun a b => time a ≤ time b) := by
  have hperm := List.perm_insertionSort (fun a b : Row => time a ≤ time b) rows
  refine ⟨hperm.nodup_iff.2 hnodup, ?_, ?_⟩
  · rw [← hall]
    exact List.toFinset_eq_of_perm _ _ hperm
  · have : Std.Total fun a b : Row => time a ≤ time b := ⟨fun a b => le_total _ _⟩
    have : IsTrans Row fun a b : Row => time a ≤ time b := ⟨fun _ _ _ => le_trans⟩
    exact List.pairwise_insertionSort _ rows

/-- Two rows of one time are fetched in either order. -/
theorem exists_fetched_swap {a b : Row} (ha : a ∈ stored) (hb : b ∈ stored) (hne : a ≠ b) (htime : time a = time b) :
    ∃ lo hi, Fetched time stored (lo ++ a :: b :: hi) ∧ Fetched time stored (lo ++ b :: a :: hi) := by
  obtain ⟨lo, hi, hsort⟩ := insertionSort_tied (r := fun x y : Row => time x ≤ time y) a (le_refl _) []
    ((stored.erase a).erase b).toList
  have hmem : b ∈ stored.erase a := Finset.mem_erase.2 ⟨hne.symm, hb⟩
  have hrest : ∀ x, x ∈ ((stored.erase a).erase b).toList ↔ x ≠ b ∧ x ≠ a ∧ x ∈ stored := by
    intro x
    rw [Finset.mem_toList, Finset.mem_erase, Finset.mem_erase]
  have htied (C : List Row) (hC : ∀ c ∈ C, time c = time a) : Tied (fun x y : Row => time x ≤ time y) a C :=
    ⟨fun c hc x => by rw [hC c hc], fun c hc x => by rw [hC c hc]⟩
  have hfetched (x y : Row) (hxy : x = a ∧ y = b ∨ x = b ∧ y = a) : Fetched time stored (lo ++ ([x, y] ++ hi)) := by
    rw [← hsort [x, y] (by simp) (htied _ ?_)]
    · refine fetched_insertionSort ?_ ?_
      · rcases hxy with ⟨rfl, rfl⟩ | ⟨rfl, rfl⟩ <;> simp [hne, hne.symm, Finset.nodup_toList]
      · ext z
        rcases hxy with ⟨rfl, rfl⟩ | ⟨rfl, rfl⟩ <;> simp <;> grind
    · rcases hxy with ⟨rfl, rfl⟩ | ⟨rfl, rfl⟩ <;> simp [htime]
  exact ⟨lo, hi, hfetched a b (.inl ⟨rfl, rfl⟩), hfetched b a (.inr ⟨rfl, rfl⟩)⟩

end Rows

section Quantities

variable {lib : Decimals} {client : MarketData}

theorem reconstructQuantity_perm {snapshot : BalanceSnapshot} {events events' : List TimedDelta}
    (h : events.Perm events') (cutMs : ℕ) :
    reconstructQuantity snapshot events cutMs = reconstructQuantity snapshot events' cutMs := by
  unfold reconstructQuantity
  have hfound (l : List TimedDelta) (e : TimedDelta)
      (he : l.find? (fun e => e.timeMs = snapshot.observedAtMs) = some e) : e.timeMs = snapshot.observedAtMs := by
    simpa using List.find?_some he
  have hnone : events.find? (fun e => e.timeMs = snapshot.observedAtMs) = none ↔
      events'.find? (fun e => e.timeMs = snapshot.observedAtMs) = none := by
    simp only [List.find?_eq_none, h.mem_iff]
  cases hf : events.find? fun e => e.timeMs = snapshot.observedAtMs with
  | none =>
    rw [hnone.1 hf]
    dsimp only
    rw [h.foldl_eq' fun x _ y _ z => by split_ifs <;> ring, h.foldl_eq' fun x _ y _ z => by split_ifs <;> ring]
  | some e =>
    cases hf' : events'.find? fun e => e.timeMs = snapshot.observedAtMs with
    | none =>
      rw [hnone.2 hf'] at hf
      cases hf
    | some e' =>
      dsimp only
      rw [hfound _ e hf, hfound _ e' hf']

/-- The same assets are touched, and of each the same amounts move at the same times. -/
structure SameDeltas (deltas deltas' : Deltas) : Prop where
  moved : ∀ asset, (deltas.getD asset []).Perm (deltas'.getD asset [])
  touched : ∀ asset, asset ∈ deltas ↔ asset ∈ deltas'

theorem parseDecimal_exists {s : String} : (∃ d, parseDecimal lib s = .ok d) ↔ (lib.fromStr s).isSome := by
  unfold parseDecimal
  cases lib.fromStr s <;> simp

theorem perAssetDeltas_exists {events : List LedgerEvent} :
    (∃ deltas, perAssetDeltas lib events = .ok deltas) ↔
      ∀ e ∈ events, ∀ leg ∈ e.allLegs, (lib.fromStr leg.amount).isSome := by
  have hleg (timeMs : ℕ) (deltas : Deltas) (leg : LedgerLeg) :
      (∃ deltas', addDelta lib timeMs deltas leg = .ok deltas') ↔ (lib.fromStr leg.amount).isSome := by
    rw [← parseDecimal_exists]
    unfold addDelta
    simp only [bind_ok, pure_ok]
    constructor
    · rintro ⟨_, d, hd, -⟩
      exact ⟨d, hd⟩
    · rintro ⟨d, hd⟩
      exact ⟨_, d, hd, rfl⟩
  have hlegs (timeMs : ℕ) (legs : List LedgerLeg) (deltas : Deltas) :
      (∃ deltas', legs.foldlM (addDelta lib timeMs) deltas = .ok deltas') ↔
        ∀ leg ∈ legs, (lib.fromStr leg.amount).isSome := by
    rw [foldlM_exists_iff fun deltas leg _ => hleg timeMs deltas leg]
  unfold perAssetDeltas
  rw [foldlM_exists_iff fun deltas e _ => hlegs e.economicTimeMs.toNat e.allLegs deltas]

/-- Events in another order give the same deltas, each in another order. -/
theorem perAssetDeltas_perm {events events' : List LedgerEvent} (h : events.Perm events') {deltas : Deltas}
    (hdeltas : perAssetDeltas lib events = .ok deltas) :
    ∃ deltas', perAssetDeltas lib events' = .ok deltas' ∧ SameDeltas deltas deltas' := by
  have hreadable := perAssetDeltas_exists.1 ⟨deltas, hdeltas⟩
  obtain ⟨deltas', hdeltas'⟩ := perAssetDeltas_exists.2 fun e he => hreadable e (h.mem_iff.2 he)
  have hmoves : (events.flatMap (eventMoves lib)).Perm (events'.flatMap (eventMoves lib)) := h.flatMap_right _
  refine ⟨deltas', hdeltas', fun asset => ?_, fun asset => ?_⟩
  · rw [perAssetDeltas_ok hdeltas, perAssetDeltas_ok hdeltas', getD_foldl_putMove, getD_foldl_putMove]
    exact (ofAsset_perm hmoves asset).append_left _
  · rw [perAssetDeltas_ok hdeltas, perAssetDeltas_ok hdeltas', mem_foldl_putMove, mem_foldl_putMove,
      (hmoves.map Prod.fst).mem_iff]

theorem wantedMarkets_congr {deltas deltas' : Deltas} (h : SameDeltas deltas deltas') (symbolAssets : SymbolAssets)
    (balances : List AccountBalance) :
    wantedMarkets lib client symbolAssets deltas balances = wantedMarkets lib client symbolAssets deltas' balances := by
  unfold wantedMarkets
  simp only [h.touched]

theorem keepBalance_congr {deltas deltas' : Deltas} (h : SameDeltas deltas deltas') (symbolAssets : SymbolAssets) :
    keepBalance lib client symbolAssets deltas = keepBalance lib client symbolAssets deltas' := by
  funext kept b
  unfold keepBalance
  simp only [h.touched]

theorem quantitiesAt_congr {deltas deltas' : Deltas} (h : SameDeltas deltas deltas') (cutMs nowMs : ℕ)
    (balances : Balances) : quantitiesAt cutMs nowMs balances deltas = quantitiesAt cutMs nowMs balances deltas' := by
  unfold quantitiesAt
  simp only [reconstructQuantity_perm (h.moved _)]

/-- What is read of the exchange is the same, and what moved is the same in another order. -/
theorem prepare_perm {allTrades : List Trade} {flows flows' : List NormalizedFlow} {sinceMs : ℕ}
    (h : flows.Perm flows') {p : Prepared} (hp : prepare lib client allTrades flows sinceMs = .ok p) :
    ∃ deltas, prepare lib client allTrades flows' sinceMs =
        .ok { p with flows := flows'.filter fun f => sinceMs ≤ f.economicTimeMs.toNat, deltas } ∧
      SameDeltas p.deltas deltas := by
  simp only [prepare, collectLedgerEvents, bind_ok, pure_ok, mapError_ok] at hp
  obtain ⟨symbolAssets, hfirst, _, ⟨tradeEvents, htrades, rfl⟩, deltas, hdeltas, balances, hbalances, more, hmore,
    kept, hkept, rfl⟩ := hp
  have hevents := ((h.filter fun f => sinceMs ≤ f.economicTimeMs.toNat).map flowToLedgerEvent).append_left tradeEvents
  have hsorted := (List.perm_insertionSort (fun a b => a.economicTimeMs.toNat ≤ b.economicTimeMs.toNat) _).trans
    (hevents.trans (List.perm_insertionSort (fun a b => a.economicTimeMs.toNat ≤ b.economicTimeMs.toNat) _).symm)
  obtain ⟨deltas', hdeltas', hsame⟩ := perAssetDeltas_perm hsorted hdeltas
  refine ⟨deltas', ?_, hsame⟩
  simp only [prepare, collectLedgerEvents, bind_ok, pure_ok, mapError_ok]
  refine ⟨symbolAssets, hfirst, _, ⟨tradeEvents, htrades, rfl⟩, deltas', hdeltas', balances, hbalances, more, ?_,
    kept, ?_, rfl⟩
  · rw [← wantedMarkets_congr hsame]
    exact hmore
  · rw [← keepBalance_congr hsame]
    exact hkept

end Quantities

section Timeline

variable {dailyNav : List DailyNav} {flows flows' : List PricedFlow}

theorem computeTwr_swap (h : Swap (fun x y : PricedFlow => x.timeMs = y.timeMs) flows flows') :
    computeTwr (timelineOf dailyNav flows) = computeTwr (timelineOf dailyNav flows') := by
  obtain ⟨lo, x, y, hi, rfl, rfl, htime⟩ := h
  obtain ⟨lo', hi', hsort⟩ := insertionSort_tied (r := before) (.flow x.timeMs x.netAmount) (le_refl x.timeMs)
    ((dailyNav.map fun d => TimelineEvent.valuation d.dayStartMs d.nav) ++
      lo.map fun f => TimelineEvent.flow f.timeMs f.netAmount)
    (hi.map fun f => TimelineEvent.flow f.timeMs f.netAmount)
  have htied (C : List TimelineEvent) (hC : ∀ c ∈ C, ∃ amount, c = .flow x.timeMs amount) :
      Tied before (.flow x.timeMs x.netAmount) C := by
    refine ⟨fun c hc z => ?_, fun c hc z => ?_⟩
    · obtain ⟨amount, rfl⟩ := hC c hc
      cases z <;> rfl
    · obtain ⟨amount, rfl⟩ := hC c hc
      cases z <;> rfl
  have hxy := hsort [.flow x.timeMs x.netAmount, .flow y.timeMs y.netAmount] (by simp) (htied _ (by simp [htime]))
  have hyx := hsort [.flow y.timeMs y.netAmount, .flow x.timeMs x.netAmount] (by simp) (htied _ (by simp [htime]))
  have hfold (s : TwrState) :
      List.foldlM twrStep s [.flow x.timeMs x.netAmount, .flow y.timeMs y.netAmount] =
        List.foldlM twrStep s [.flow y.timeMs y.netAmount, .flow x.timeMs x.netAmount] := by
    show (Except.ok ⟨s.index, s.subReturns, some (s.currentNav.getD 0 + x.netAmount + y.netAmount)⟩ :
      Except ReturnError TwrState) = .ok ⟨s.index, s.subReturns, some (s.currentNav.getD 0 + y.netAmount + x.netAmount)⟩
    rw [add_right_comm]
  have hlist (a b : PricedFlow) :
      (dailyNav.map fun d => TimelineEvent.valuation d.dayStartMs d.nav) ++
          (lo ++ a :: b :: hi).map (fun f => TimelineEvent.flow f.timeMs f.netAmount) =
        ((dailyNav.map fun d => TimelineEvent.valuation d.dayStartMs d.nav) ++
          lo.map fun f => TimelineEvent.flow f.timeMs f.netAmount) ++
          ([.flow a.timeMs a.netAmount, .flow b.timeMs b.netAmount] ++
            hi.map fun f => TimelineEvent.flow f.timeMs f.netAmount) := by
    simp
  unfold computeTwr timelineOf
  rw [hlist, hlist, hxy, hyx]
  simp only [List.foldlM_append, hfold]

end Timeline

section Lots

variable {asset : String} {s : PnlState}

theorem entry_pnlStep (e : PnlEvent) : (pnlStep s e).lots[asset]? = e.onEntry asset s.lots[asset]? := by
  cases e with
  | acquire a quantity unitPrice =>
    simp only [pnlStep, PnlState.update, PnlEvent.onEntry, Std.TreeMap.getElem?_alter, Std.compare_eq_iff_eq]
    split_ifs with h
    · rw [h]
    · rfl
  | dispose a quantity unitPrice =>
    simp only [pnlStep, PnlState.update, PnlEvent.onEntry, Std.TreeMap.getElem?_alter, Std.compare_eq_iff_eq]
    split_ifs with h
    · rw [h]
    · rfl
  | withdraw a quantity =>
    simp only [pnlStep, PnlEvent.onEntry, Std.TreeMap.getElem?_modify, Std.compare_eq_iff_eq]
    split_ifs with h
    · rw [h]
    · rfl
  | fee value => rfl

theorem entry_foldl (events : List PnlEvent) :
    (events.foldl pnlStep s).lots[asset]? = events.foldl (PnlEvent.onEntry asset) s.lots[asset]? := by
  induction events generalizing s with
  | nil => rfl
  | cons e events ih => rw [List.foldl_cons, List.foldl_cons, ih, entry_pnlStep]

def PnlEvent.paid : PnlEvent → ℚ
  | .fee value => value
  | _ => 0

theorem fees_foldl (events : List PnlEvent) :
    (events.foldl pnlStep s).fees = s.fees + (events.map PnlEvent.paid).sum := by
  induction events generalizing s with
  | nil => simp
  | cons e events ih =>
    rw [List.foldl_cons, ih, List.map_cons, List.sum_cons, ← add_assoc]
    congr 1
    cases e <;> simp [pnlStep, PnlState.update, PnlEvent.paid]

/-- The summary is made of what the lots have become, and of the fees. -/
theorem computePnl_congr {events events' : List PnlEvent} (hperm : events.Perm events')
    (hlots : ∀ asset lot, events.foldl (PnlEvent.onEntry asset) lot = events'.foldl (PnlEvent.onEntry asset) lot)
    (openings : List (String × ℚ × ℚ)) (currentQuantities marks : Std.TreeMap String ℚ) :
    computePnl openings events currentQuantities marks = computePnl openings events' currentQuantities marks := by
  unfold computePnl
  generalize (openings.map fun o => PnlEvent.acquire o.1 o.2.1 o.2.2).foldl pnlStep ⟨∅, 0⟩ = opened
  have hentries (asset : String) :
      (events.foldl pnlStep opened).lots[asset]? = (events'.foldl pnlStep opened).lots[asset]? := by
    rw [entry_foldl, entry_foldl, hlots]
  have hfees : (events.foldl pnlStep opened).fees = (events'.foldl pnlStep opened).fees := by
    rw [fees_foldl, fees_foldl, (hperm.map PnlEvent.paid).sum_eq]
  have hkeys := (Std.TreeMap.Equiv.of_forall_constGet?_eq hentries).keys_eq
  have hpositions : positionOf (events.foldl pnlStep opened).lots currentQuantities marks =
      positionOf (events'.foldl pnlStep opened).lots currentQuantities marks := by
    funext asset
    unfold positionOf
    rw [hentries]
  dsimp only
  rw [hkeys, hpositions, hfees]

end Lots

section Swapped

variable {lib : Decimals} {client : MarketData} {flows flows' : List PricedFlow} {sinceMs nowMs : ℕ}

/-- The prices of an instant; what has none counts as nothing. -/
def pricesAt (client : MarketData) (timeMs : ℕ) (asset : String) : ℚ :=
  ((resolveHistoricalPrice client asset timeMs).toOption).getD 0

theorem priceLegs_events {timeMs : ℕ} {isFee : Bool} {legs : List AssetLeg} {priced : List (ℚ × List PnlEvent)}
    (h : legs.mapM (priceLeg lib client timeMs isFee) = .ok priced) :
    priced.flatMap Prod.snd = legs.flatMap (legPnlEvents lib client.quoteCurrency (pricesAt client timeMs) isFee) := by
  rw [mapM_ok] at h
  induction h with
  | nil => rfl
  | cons hfirst hrest ih =>
    simp only [priceLeg, bind_ok, mapError_ok, pure_ok] at hfirst
    obtain ⟨amount, hamount, price, hprice, rfl⟩ := hfirst
    rw [List.flatMap_cons, List.flatMap_cons, ih, ← (parseDecimal_ok hamount).2]
    congr 1
    unfold legPnlEvents pricesAt
    rw [hprice]
    rfl

theorem priceFlow_events {f : NormalizedFlow} {priced : PricedFlow} (h : priceFlow lib client f = .ok priced) :
    priced.timeMs = flowTime f ∧
      priced.pnlEvents = flowPnlEvents lib client.quoteCurrency (pricesAt client (flowTime f)) f := by
  simp only [priceFlow, bind_ok, pure_ok] at h
  obtain ⟨legs, hlegs, fee, hfee, rfl⟩ := h
  refine ⟨rfl, ?_⟩
  rw [List.flatMap_append, priceLegs_events hlegs, priceLegs_events hfee]
  rfl

/-- Two priced flows of one instant whose events commute on every lot. -/
def Together (x y : PricedFlow) : Prop :=
  x.timeMs = y.timeMs ∧ ∀ asset lot, (x.pnlEvents ++ y.pnlEvents).foldl (PnlEvent.onEntry asset) lot =
    (y.pnlEvents ++ x.pnlEvents).foldl (PnlEvent.onEntry asset) lot

theorem pnlOf_swap {quantities : List (List (String × ℚ))} {holdings : List (List Holding)}
    (h : Swap Together flows flows') (tradeEvents : List (ℕ × List PnlEvent)) :
    pnlOf client ⟨quantities, holdings, flows⟩ tradeEvents =
      pnlOf client ⟨quantities, holdings, flows'⟩ tradeEvents := by
  obtain ⟨lo, x, y, hi, rfl, rfl, htime, hcommute⟩ := h
  have hlist (a b : PricedFlow) (hab : a.timeMs = b.timeMs) :
      (((lo ++ a :: b :: hi).map fun f => (f.timeMs, f.pnlEvents)) ++ tradeEvents).flatMap
          (fun e => e.2.map fun event => (e.1, event)) =
        (lo.flatMap fun f => f.pnlEvents.map fun event => (f.timeMs, event)) ++
          ((a.pnlEvents ++ b.pnlEvents).map (fun event => (a.timeMs, event)) ++
            (((hi.map fun f => (f.timeMs, f.pnlEvents)) ++ tradeEvents).flatMap
              fun e => e.2.map fun event => (e.1, event))) := by
    simp [List.flatMap_map, hab]
  unfold pnlOf
  dsimp only
  rw [hlist x y htime, hlist y x htime.symm, ← htime]
  by_cases hempty : x.pnlEvents ++ y.pnlEvents = []
  · obtain ⟨hx, hy⟩ := List.append_eq_nil_iff.1 hempty
    rw [hx, hy]
  · obtain ⟨e, rest, hcons⟩ := List.exists_cons_of_ne_nil hempty
    obtain ⟨lo', hi', hsort⟩ := insertionSort_tied (r := fun a b : ℕ × PnlEvent => a.1 ≤ b.1) (x.timeMs, e)
      (le_refl x.timeMs) (lo.flatMap fun f => f.pnlEvents.map fun event => (f.timeMs, event))
      (((hi.map fun f => (f.timeMs, f.pnlEvents)) ++ tradeEvents).flatMap fun e => e.2.map fun event => (e.1, event))
    have htied (events : List PnlEvent) :
        Tied (fun a b : ℕ × PnlEvent => a.1 ≤ b.1) (x.timeMs, e) (events.map fun event => (x.timeMs, event)) := by
      refine ⟨List.forall_mem_map.2 fun event _ z => Iff.rfl, List.forall_mem_map.2 fun event _ z => Iff.rfl⟩
    have hswapped : y.pnlEvents ++ x.pnlEvents ≠ [] := by
      intro hnil
      obtain ⟨hy, hx⟩ := List.append_eq_nil_iff.1 hnil
      exact hempty (by rw [hx, hy]; rfl)
    rw [hsort _ (by simpa using hempty) (htied _), hsort _ (by simpa using hswapped) (htied _)]
    refine computePnl_congr ?_ (fun asset lot => ?_) _ _ _
    · refine List.Perm.map _ (List.Perm.append_left _ (List.Perm.append_right _ ?_))
      exact List.perm_append_comm.map _
    · simp only [List.map_append, List.map_map, List.foldl_append]
      have hmiddle := hcommute asset (List.foldl (PnlEvent.onEntry asset) lot (lo'.map Prod.snd))
      simp only [List.foldl_append] at hmiddle
      simpa [Function.comp_def] using congrArg (fun l => List.foldl (PnlEvent.onEntry asset) l (hi'.map Prod.snd)) hmiddle

/-- Flows of one millisecond; and if both are deposits or withdrawals, they commute. -/
def Neighbours (lib : Decimals) (a b : NormalizedFlow) : Prop :=
  flowTime a = flowTime b ∧ (a.isExternal = true → b.isExternal = true → Commute lib a b)

theorem valueCheckpoints_swap {p : Prepared} {flows' : List NormalizedFlow} {deltas : Deltas}
    (hflows : p.flows = flows' ∨ Swap (Neighbours lib) p.flows flows') (hsame : SameDeltas p.deltas deltas) {v : Valued}
    (h : valueCheckpoints lib client p sinceMs nowMs = .ok v) :
    ∃ priced, valueCheckpoints lib client { p with flows := flows', deltas } sinceMs nowMs =
        .ok { v with flows := priced } ∧ (v.flows = priced ∨ Swap Together v.flows priced) := by
  simp only [valueCheckpoints, bind_ok, pure_ok] at h
  obtain ⟨priced, hpriced, quantities, hquantities, holdings, hholdings, rfl⟩ := h
  have hrest (priced' : List PricedFlow)
      (hpriced' : (flows'.filter NormalizedFlow.isExternal).mapM (priceFlow lib client) = .ok priced') :
      valueCheckpoints lib client { p with flows := flows', deltas } sinceMs nowMs =
        .ok ⟨quantities, holdings, priced'⟩ := by
    simp only [valueCheckpoints, bind_ok, pure_ok]
    refine ⟨priced', hpriced', quantities, ?_, holdings, hholdings, rfl⟩
    rw [← hquantities]
    congr 1
    funext cut
    exact (quantitiesAt_congr hsame _ _ _).symm
  have hequal (hsamefilter : p.flows.filter NormalizedFlow.isExternal = flows'.filter NormalizedFlow.isExternal) :
      ∃ priced', valueCheckpoints lib client { p with flows := flows', deltas } sinceMs nowMs =
        .ok ⟨quantities, holdings, priced'⟩ ∧ (priced = priced' ∨ Swap Together priced priced') :=
    ⟨priced, hrest _ (hsamefilter ▸ hpriced), .inl rfl⟩
  rcases hflows with rfl | hswap
  · exact hequal rfl
  · rcases hswap.filter NormalizedFlow.isExternal with hfilter | hfilter
    · exact hequal hfilter
    · rw [mapM_ok] at hpriced
      obtain ⟨priced', hpriced', hswapped⟩ := hfilter.forall₂ hpriced
      refine ⟨priced', hrest _ (mapM_ok.2 hpriced'), .inr ?_⟩
      obtain ⟨lo, x, y, hi, rfl, rfl, a, b, ⟨⟨htime, hcommute⟩, ha, hb⟩, hx, hy⟩ := hswapped
      obtain ⟨hxtime, hxevents⟩ := priceFlow_events hx
      obtain ⟨hytime, hyevents⟩ := priceFlow_events hy
      refine ⟨lo, x, y, hi, rfl, rfl, by rw [hxtime, hytime, htime], fun asset lot => ?_⟩
      rw [hxevents, hyevents, htime]
      exact hcommute ha hb _ _ asset lot

/-- The figures are the same when two neighbours of one millisecond change places. -/
theorem computeHistory_swap {trades : List Trade} {flows flows' : List NormalizedFlow}
    (h : Swap (Neighbours lib) flows flows') {result : HistoryResult}
    (hresult : computeHistory lib client trades flows sinceMs nowMs = .ok result) :
    computeHistory lib client trades flows' sinceMs nowMs = .ok result := by
  simp only [computeHistory, bind_ok, mapError_ok, pure_ok] at hresult
  obtain ⟨p, hp, v, hv, twr, htwr, winRate, hwin, tradeEvents, hevents, rfl⟩ := hresult
  obtain ⟨deltas, hp', hsame⟩ := prepare_perm h.perm hp
  have hflows : p.flows = flows.filter fun f => sinceMs ≤ f.economicTimeMs.toNat := prepare_flows hp
  have hfiltered := h.filter fun f => decide (sinceMs ≤ f.economicTimeMs.toNat)
  rw [← hflows] at hfiltered
  obtain ⟨priced, hv', hpriced⟩ := valueCheckpoints_swap
    (hfiltered.imp_right fun hswap => hswap.imp fun a b hab => hab.1) hsame hv
  simp only [computeHistory, bind_ok, mapError_ok, pure_ok]
  refine ⟨_, hp', _, hv', twr, ?_, winRate, hwin, tradeEvents, hevents, ?_⟩
  · rcases hpriced with rfl | hswap
    · exact htwr
    · rw [← computeTwr_swap (hswap.imp fun x y hxy => hxy.1)]
      exact htwr
  · rcases hpriced with rfl | hswap
    · rfl
    · have hpnl (quantities : List (List (String × ℚ))) (holdings : List (List Holding)) :=
        @pnlOf_swap client _ _ quantities holdings hswap tradeEvents
      rw [hpnl]

end Swapped

section Main

open Collector (StoredTrade)

variable {lib : Decimals} {T : Finset StoredTrade} {F : Finset NormalizedFlow}

theorem tradeLeaf_injective : Function.Injective tradeLeaf := by
  rintro ⟨⟨symbol, id, price, qty, commission, commissionAsset, timeMs, isBuyer⟩, orderId⟩
    ⟨⟨symbol', id', price', qty', commission', commissionAsset', timeMs', isBuyer'⟩, orderId'⟩ h
  simp only [tradeLeaf, List.cons.injEq, Prod.mk.injEq, LeafValue.string.injEq, LeafValue.number.injEq,
    LeafValue.bool.injEq, UInt64.toNat_inj, true_and, and_true] at h
  obtain ⟨rfl, rfl, rfl, rfl, rfl, rfl, rfl, rfl, rfl⟩ := h
  rfl

theorem Neighbours.symm {a b : NormalizedFlow} (h : Neighbours lib a b) : Neighbours lib b a :=
  ⟨h.1.symm, fun hb ha quote price asset lot => (h.2 ha hb quote price asset lot).symm⟩

theorem toOption_eq {α ε : Type} {x y : Except ε α} (hxy : ∀ a, x = .ok a → y = .ok a)
    (hyx : ∀ a, y = .ok a → x = .ok a) : x.toOption = y.toOption := by
  cases x with
  | ok a => rw [hxy a rfl]
  | error e =>
    cases y with
    | ok a => cases hyx a rfl
    | error e' => rfl

/-- Flows that commute may come in any order of their times. -/
theorem computeHistory_fetched (hcommute : FlowsCommute lib F) {flows flows' : List NormalizedFlow}
    (h : Fetched flowTime F flows) (h' : Fetched flowTime F flows') (client : MarketData) (trades : List Trade)
    (sinceMs nowMs : ℕ) :
    (computeHistory lib client trades flows sinceMs nowMs).toOption =
      (computeHistory lib client trades flows' sinceMs nowMs).toOption := by
  have hswaps : Relation.ReflTransGen (Swap (Neighbours lib)) flows flows' := by
    refine swaps_of_sorted (h.perm h') h.sorted h'.sorted fun a ha b hb htime => ⟨htime, fun hea heb => ?_⟩
    exact hcommute a (h.mem.1 ha) b (h.mem.1 hb) hea heb htime
  clear h'
  induction hswaps with
  | refl => rfl
  | tail _ hswap ih =>
    refine ih.trans (toOption_eq (fun _ hok => computeHistory_swap hswap hok) fun _ hok => ?_)
    exact computeHistory_swap (hswap.symm fun _ _ => Neighbours.symm) hok

/-- What happens to other assets does nothing to a lot. -/
theorem foldl_onEntry_of_ne {quote : String} {price : String → ℚ} {asset : String} {lot : Option Lot}
    {f : NormalizedFlow} (h : ∀ l ∈ f.legs ++ f.fee.toList, l.asset ≠ asset) :
    (flowPnlEvents lib quote price f).foldl (PnlEvent.onEntry asset) lot = lot := by
  have hevent : ∀ e ∈ flowPnlEvents lib quote price f, e.onEntry asset lot = lot := by
    have hleg (isFee : Bool) (l : AssetLeg) (hl : l.asset ≠ asset) :
        ∀ e ∈ legPnlEvents lib quote price isFee l, e.onEntry asset lot = lot := by
      intro e he
      simp only [legPnlEvents, List.mem_append, List.mem_ite_nil_right, List.mem_singleton] at he
      rcases he with ⟨-, rfl⟩ | ⟨-, rfl⟩
      · split_ifs <;> exact if_neg hl
      · rfl
    intro e he
    simp only [flowPnlEvents, List.mem_append, List.mem_flatMap] at he
    rcases he with ⟨l, hl, he⟩ | ⟨l, hl, he⟩
    · exact hleg false l (h l (List.mem_append_left _ hl)) e he
    · exact hleg true l (h l (List.mem_append_right _ hl)) e he
  generalize flowPnlEvents lib quote price f = events at hevent
  induction events with
  | nil => rfl
  | cons e events ih =>
    obtain ⟨he, hevents⟩ := List.forall_mem_cons.1 hevent
    rw [List.foldl_cons, he, ih hevents]

/-- Flows that have no asset in common commute. -/
theorem commute_of_disjoint {a b : NormalizedFlow}
    (h : ∀ l ∈ a.legs ++ a.fee.toList, ∀ m ∈ b.legs ++ b.fee.toList, l.asset ≠ m.asset) : Commute lib a b := by
  intro quote price asset lot
  rw [List.foldl_append, List.foldl_append]
  by_cases ha : ∀ l ∈ a.legs ++ a.fee.toList, l.asset ≠ asset
  · rw [foldl_onEntry_of_ne ha, foldl_onEntry_of_ne ha]
  · obtain ⟨l, hl, rfl⟩ : ∃ l ∈ a.legs ++ a.fee.toList, l.asset = asset := by simpa using ha
    have hb : ∀ m ∈ b.legs ++ b.fee.toList, m.asset ≠ l.asset := fun m hm => (h l hl m hm).symm
    rw [foldl_onEntry_of_ne hb, foldl_onEntry_of_ne hb]

/-- A lot is taken from down to nothing, in whichever order. -/
theorem Lot.withdraw_comm (lot : Lot) {q r : ℚ} (hq : 0 ≤ q) (hr : 0 ≤ r) :
    (lot.withdraw q).withdraw r = (lot.withdraw r).withdraw q := by
  have hheld : lot.held - min q lot.held - min r (lot.held - min q lot.held) =
      lot.held - min r lot.held - min q (lot.held - min r lot.held) := by
    rcases le_total q lot.held with hqh | hqh <;> rcases le_total r lot.held with hrh | hrh <;>
      simp only [min_eq_left hqh, min_eq_left hrh, min_eq_right hqh, min_eq_right hrh, sub_self] <;>
      grind
  unfold Lot.withdraw
  rw [hheld]

/-- Flows that only take out commute. -/
theorem commute_of_withdrawals {a b : NormalizedFlow}
    (h : ∀ l ∈ (a.legs ++ a.fee.toList) ++ (b.legs ++ b.fee.toList), l.isCredit = false ∧ 0 ≤ amountOf lib l.amount) :
    Commute lib a b := by
  intro quote price asset lot
  have hevents (f : NormalizedFlow) (hf : ∀ l ∈ f.legs ++ f.fee.toList, l.isCredit = false ∧ 0 ≤ amountOf lib l.amount) :
      ∀ e ∈ flowPnlEvents lib quote price f, (∃ asset q, 0 ≤ q ∧ e = .withdraw asset q) ∨ ∃ v, e = .fee v := by
    have hleg (isFee : Bool) (l : AssetLeg) (hl : l.isCredit = false ∧ 0 ≤ amountOf lib l.amount) :
        ∀ e ∈ legPnlEvents lib quote price isFee l, (∃ asset q, 0 ≤ q ∧ e = .withdraw asset q) ∨ ∃ v, e = .fee v := by
      intro e he
      simp only [legPnlEvents, List.mem_append, List.mem_ite_nil_right, List.mem_singleton, hl.1] at he
      rcases he with ⟨-, rfl⟩ | ⟨-, rfl⟩
      · exact .inl ⟨_, _, hl.2, rfl⟩
      · exact .inr ⟨_, rfl⟩
    intro e he
    simp only [flowPnlEvents, List.mem_append, List.mem_flatMap] at he
    rcases he with ⟨l, hl, he⟩ | ⟨l, hl, he⟩
    · exact hleg false l (hf l (List.mem_append_left _ hl)) e he
    · exact hleg true l (hf l (List.mem_append_right _ hl)) e he
  have hall : ∀ e ∈ flowPnlEvents lib quote price a ++ flowPnlEvents lib quote price b,
      (∃ asset q, 0 ≤ q ∧ e = .withdraw asset q) ∨ ∃ v, e = .fee v :=
    List.forall_mem_append.2 ⟨hevents a fun l hl => h l (List.mem_append_left _ hl),
      hevents b fun l hl => h l (List.mem_append_right _ hl)⟩
  refine List.perm_append_comm.foldl_eq' (fun x hx y hy z => ?_) lot
  rcases hall x hx with ⟨p, q, hq, rfl⟩ | ⟨v, rfl⟩
  · rcases hall y hy with ⟨p', r, hr, rfl⟩ | ⟨w, rfl⟩
    · simp only [PnlEvent.onEntry]
      split_ifs
      · rw [Option.map_map, Option.map_map]
        congr 1
        funext l
        exact l.withdraw_comm hq hr
      · rfl
      · rfl
      · rfl
    · rfl
  · rfl

/-- Bought and sold within one millisecond. -/
def scalped : List StoredTrade :=
  [⟨⟨"NICHEUSDT", 1, "10", "2", "0", "USDT", 1000, true⟩, 1⟩, ⟨⟨"NICHEUSDT", 2, "10", "2", "0", "USDT", 1000, false⟩, 2⟩]

/-- The win rate of the trades in the order given. -/
def winRateOf (trades : List StoredTrade) : Option (Option WinRateResult) :=
  (computeHistory exampleDecimals (nicheMarket [⟨"USDT", "20", "0"⟩, ⟨"NICHE", "0", "0"⟩])
    (trades.map StoredTrade.toTrade) [] 0 5000).toOption.map HistoryResult.winRate

end Main

end Linvesther.Worker
