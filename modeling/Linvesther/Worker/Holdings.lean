import Linvesther.Base.Traverse
import Linvesther.Worker.History

/-! The quantities at a cut are walked back from the balances of now. They are what the account held at the
cut, for the assets that a balance is reported of. -/

namespace Linvesther.Worker

open Transaction Domain

section Moves

/-- An asset and what one leg of an event changes of it. -/
abbrev Move := String × TimedDelta

/-- The moves of an asset. -/
def ofAsset (asset : String) (moves : List Move) : List TimedDelta :=
  (moves.filter fun m => m.1 = asset).map Prod.snd

/-- Applying a move to what is held of each asset. -/
def applyMove (held : String → ℚ) (m : Move) : String → ℚ :=
  fun asset => if asset = m.1 then held asset + m.2.delta else held asset

/-- What is held after the moves up to a time, in the order of time. -/
def holdingsAt (opening : String → ℚ) (moves : List Move) (timeMs : ℕ) : String → ℚ :=
  ((moves.insertionSort fun a b => a.2.timeMs ≤ b.2.timeMs).filter fun m =>
    m.2.timeMs ≤ timeMs).foldl applyMove opening

theorem ofAsset_append (asset : String) (l l' : List Move) :
    ofAsset asset (l ++ l') = ofAsset asset l ++ ofAsset asset l' := by
  simp [ofAsset]

theorem foldl_applyMove (opening : String → ℚ) (moves : List Move) (asset : String) :
    moves.foldl applyMove opening asset =
      opening asset + ((ofAsset asset moves).map TimedDelta.delta).sum := by
  induction moves generalizing opening with
  | nil => simp [ofAsset]
  | cons m moves ih =>
    rw [List.foldl_cons, ih]
    unfold ofAsset applyMove
    by_cases h : m.1 = asset
    · rw [if_pos h.symm, List.filter_cons_of_pos (by simpa using h)]
      simp only [List.map_cons, List.sum_cons]
      ring
    · rw [if_neg (Ne.symm h), List.filter_cons_of_neg (by simpa using h)]

theorem addedUp_perm {l l' : List TimedDelta} (h : l.Perm l') (timeMs : ℕ) :
    addedUp l timeMs = addedUp l' timeMs :=
  ((h.filter _).map _).sum_eq

theorem ofAsset_perm {l l' : List Move} (h : l.Perm l') (asset : String) :
    (ofAsset asset l).Perm (ofAsset asset l') :=
  (h.filter _).map _

theorem holdingsAt_eq (opening : String → ℚ) (moves : List Move) (timeMs : ℕ) (asset : String) :
    holdingsAt opening moves timeMs asset =
      opening asset + addedUp (ofAsset asset moves) timeMs := by
  unfold holdingsAt
  rw [foldl_applyMove, ← addedUp_perm (ofAsset_perm (List.perm_insertionSort
    (fun a b : Move => a.2.timeMs ≤ b.2.timeMs) moves) asset) timeMs]
  unfold addedUp ofAsset
  rw [List.filter_map, List.filter_filter, List.filter_filter]
  congr 4
  refine List.filter_congr fun m _ => ?_
  exact Bool.and_comm _ _

end Moves

section Collected

variable (lib : Decimals)

/-- The number that an amount is; one that cannot be read is refused everywhere. -/
def amountOf (text : String) : ℚ := (lib.fromStr text).getD 0

def move (timeMs : ℕ) (asset : String) (amount : ℚ) (isCredit : Bool) : Move :=
  (asset, ⟨timeMs, if isCredit then amount else -amount⟩)

/-- What a trade does: one asset for another at its price, and the fee. -/
def Trade.moves (catalog : SymbolAssets) (t : Trade) : List Move :=
  let assets := catalog.getD t.symbol ("", "")
  [move t.timeMs.toNat assets.1 (amountOf lib t.qty) t.isBuyer,
   move t.timeMs.toNat assets.2 (amountOf lib t.price * amountOf lib t.qty) (!t.isBuyer),
   move t.timeMs.toNat t.commissionAsset (amountOf lib t.commission) false]

def NormalizedFlow.moves (f : NormalizedFlow) : List Move :=
  (f.legs ++ f.fee.toList).map fun l =>
    move f.economicTimeMs.toNat l.asset (amountOf lib l.amount) l.isCredit

/-- All that the trades and flows do. -/
def movesOf (catalog : SymbolAssets) (trades : List Trade) (flows : List NormalizedFlow) :
    List Move :=
  trades.flatMap (Trade.moves lib catalog) ++ flows.flatMap (NormalizedFlow.moves lib)

def eventMoves (e : LedgerEvent) : List Move :=
  e.allLegs.map fun l => move e.economicTimeMs.toNat l.asset (amountOf lib l.amount) l.isCredit

def putMove (deltas : Deltas) (m : Move) : Deltas :=
  deltas.alter m.1 fun ds => some (ds.getD [] ++ [m.2])

variable {lib}

theorem parseDecimal_ok {s : String} {d : ℚ} (h : parseDecimal lib s = .ok d) :
    lib.fromStr s = some d ∧ amountOf lib s = d := by
  unfold parseDecimal at h
  unfold amountOf
  rcases hs : lib.fromStr s with _ | d'
  · rw [hs] at h
    cases h
  · rw [hs] at h
    rw [Except.ok.inj h]
    exact ⟨rfl, rfl⟩

theorem addDelta_ok {timeMs : ℕ} {deltas deltas' : Deltas} {leg : LedgerLeg}
    (h : addDelta lib timeMs deltas leg = .ok deltas') :
    deltas' = putMove deltas (move timeMs leg.asset (amountOf lib leg.amount) leg.isCredit) := by
  unfold addDelta at h
  simp only [bind_ok, pure_ok] at h
  obtain ⟨amount, hamount, rfl⟩ := h
  rw [(parseDecimal_ok hamount).2]
  rfl

theorem perAssetDeltas_ok {events : List LedgerEvent} {deltas : Deltas}
    (h : perAssetDeltas lib events = .ok deltas) :
    deltas = (events.flatMap (eventMoves lib)).foldl putMove ∅ := by
  have hevent (deltas : Deltas) (event : LedgerEvent) (_ : event ∈ events) (deltas' : Deltas)
      (hev : event.allLegs.foldlM (addDelta lib event.economicTimeMs.toNat) deltas = .ok deltas') :
      deltas' = (eventMoves lib event).foldl putMove deltas := by
    unfold eventMoves
    rw [List.foldl_map]
    exact foldlM_ok (fun _ _ _ _ hleg => addDelta_ok hleg) hev
  have hfold := foldlM_ok hevent h
  rw [hfold, List.foldl_flatMap]

theorem getD_putMove (deltas : Deltas) (m : Move) (asset : String) :
    (putMove deltas m).getD asset [] = deltas.getD asset [] ++ ofAsset asset [m] := by
  unfold putMove ofAsset
  rw [Std.TreeMap.getD_alter]
  simp only [Std.compare_eq_iff_eq]
  by_cases h : m.1 = asset
  · subst h
    rw [if_pos rfl, Std.TreeMap.getD_eq_getD_getElem?]
    simp
  · rw [if_neg h]
    simp [h]

theorem getD_foldl_putMove (deltas : Deltas) (moves : List Move) (asset : String) :
    (moves.foldl putMove deltas).getD asset [] = deltas.getD asset [] ++ ofAsset asset moves := by
  induction moves generalizing deltas with
  | nil => simp [ofAsset]
  | cons m moves ih =>
    rw [List.foldl_cons, ih, getD_putMove, List.append_assoc, ← ofAsset_append]
    rfl

theorem mem_foldl_putMove (deltas : Deltas) (moves : List Move) (asset : String) :
    asset ∈ moves.foldl putMove deltas ↔ asset ∈ deltas ∨ asset ∈ moves.map Prod.fst := by
  induction moves generalizing deltas with
  | nil => simp
  | cons m moves ih =>
    rw [List.foldl_cons, ih]
    unfold putMove
    rw [Std.TreeMap.mem_alter]
    simp only [Std.compare_eq_iff_eq, List.map_cons, List.mem_cons]
    by_cases h : m.1 = asset
    · simp [h]
    · rw [if_neg h]
      simp [Ne.symm h]

end Collected

section Prepared

variable {lib : Decimals} {client : MarketData} {catalog : SymbolAssets}

/-- An exchange answers with those of the symbols asked for that it lists. -/
structure Lists (client : MarketData) (catalog : SymbolAssets) : Prop where
  fetch : ∀ symbols found, client.fetchSymbolAssetsFor symbols = .ok found →
    ∀ m : String, found[m]? = if m ∈ symbols then catalog[m]? else none

/-- The text of what a trade cost reads back as the number it was made from. -/
def ReadsBack (lib : Decimals) (trades : List Trade) : Prop :=
  ∀ t ∈ trades, lib.fromStr (lib.toString (amountOf lib t.price * amountOf lib t.qty)) =
    some (amountOf lib t.price * amountOf lib t.qty)

theorem tradeEvent_moves {symbolAssets : SymbolAssets} {t : Trade} {e : LedgerEvent}
    (hsame : ∀ assets, symbolAssets[t.symbol]? = some assets → catalog[t.symbol]? = some assets)
    (hreads : lib.fromStr (lib.toString (amountOf lib t.price * amountOf lib t.qty)) =
      some (amountOf lib t.price * amountOf lib t.qty))
    (h : tradeEvent lib symbolAssets t = .ok e) : eventMoves lib e = t.moves lib catalog := by
  unfold tradeEvent at h
  rcases hassets : symbolAssets[t.symbol]? with _ | ⟨base, quote⟩
  · rw [hassets] at h
    cases h
  · rw [hassets] at h
    simp only [tradeToLedgerEvent, bind_ok, pure_ok] at h
    obtain ⟨price, hprice, qty, hqty, rfl⟩ := h
    have hcost : amountOf lib (lib.toString (price * qty)) =
        amountOf lib t.price * amountOf lib t.qty := by
      rw [← (parseDecimal_ok hprice).2, ← (parseDecimal_ok hqty).2]
      unfold amountOf at hreads ⊢
      rw [hreads]
      rfl
    unfold Trade.moves
    rw [Std.TreeMap.getD_eq_getD_getElem?, hsame _ hassets]
    simp only [eventMoves, LedgerEvent.allLegs, Option.toList_some, List.cons_append,
      List.nil_append, List.map_cons, List.map_nil, hcost]
    rfl

theorem flowToLedgerEvent_moves (f : NormalizedFlow) :
    eventMoves lib (flowToLedgerEvent f) = f.moves lib := by
  unfold eventMoves NormalizedFlow.moves LedgerEvent.allLegs flowToLedgerEvent
  rcases hfee : f.fee with _ | fee
  · simp [AssetLeg.toLedgerLeg]
  · simp [AssetLeg.toLedgerLeg]

theorem collectLedgerEvents_moves {trades : List Trade} {flows : List NormalizedFlow}
    {symbolAssets : SymbolAssets} {events : List LedgerEvent}
    (hsame : ∀ t ∈ trades, ∀ assets, symbolAssets[t.symbol]? = some assets →
      catalog[t.symbol]? = some assets)
    (hreads : ReadsBack lib trades)
    (h : collectLedgerEvents lib trades flows symbolAssets = .ok events) :
    (events.flatMap (eventMoves lib)).Perm (movesOf lib catalog trades flows) := by
  simp only [collectLedgerEvents, bind_ok, pure_ok, mapM_ok] at h
  obtain ⟨tradeEvents, htrades, rfl⟩ := h
  have hmoves : tradeEvents.flatMap (eventMoves lib) = trades.flatMap (Trade.moves lib catalog) := by
    clear flows
    induction htrades with
    | nil => rfl
    | cons hfirst hrest ih =>
      rw [List.flatMap_cons, List.flatMap_cons, tradeEvent_moves (hsame _ List.mem_cons_self)
        (hreads _ List.mem_cons_self) hfirst, ih (fun t ht => hsame t (List.mem_cons_of_mem _ ht))
        fun t ht => hreads t (List.mem_cons_of_mem _ ht)]
  refine ((List.perm_insertionSort _ _).flatMap_right _).trans ?_
  rw [List.flatMap_append, hmoves, List.flatMap_map]
  simp only [flowToLedgerEvent_moves]
  exact .refl _

/-- An asset is valued if it is the quote currency or has a market with it. -/
def InScope (client : MarketData) (symbols : SymbolAssets) (asset : String) : Prop :=
  asset = client.quoteCurrency ∨ client.marketSymbol asset ∈ symbols

instance (client : MarketData) (symbols : SymbolAssets) (asset : String) :
    Decidable (InScope client symbols asset) :=
  inferInstanceAs (Decidable (asset = client.quoteCurrency ∨ client.marketSymbol asset ∈ symbols))

variable (lib client) in
/-- What `keepBalance` does with a balance that can be read. -/
def keep (symbolAssets : SymbolAssets) (deltas : Deltas) (kept : Balances) (b : AccountBalance) :
    Balances :=
  if (amountOf lib b.free + amountOf lib b.locked > 0 ∨ b.asset ∈ deltas) ∧
      InScope client symbolAssets b.asset then
    kept.insert b.asset (amountOf lib b.free, amountOf lib b.locked)
  else kept

theorem keepBalance_ok {symbolAssets : SymbolAssets} {deltas : Deltas} {kept kept' : Balances}
    {b : AccountBalance} (h : keepBalance lib client symbolAssets deltas kept b = .ok kept') :
    kept' = keep lib client symbolAssets deltas kept b := by
  simp only [keepBalance, bind_ok, pure_ok] at h
  obtain ⟨free, hfree, locked, hlocked, rfl⟩ := h
  rw [← (parseDecimal_ok hfree).2, ← (parseDecimal_ok hlocked).2]
  rfl

/-- A touched asset is kept if a balance is reported of it and it is in scope. -/
theorem mem_foldl_keep {symbolAssets : SymbolAssets} {deltas : Deltas} (balances : List AccountBalance)
    (kept : Balances) {asset : String} (htouched : asset ∈ deltas) :
    asset ∈ balances.foldl (keep lib client symbolAssets deltas) kept ↔ asset ∈ kept ∨
      (asset ∈ balances.map AccountBalance.asset ∧ InScope client symbolAssets asset) := by
  induction balances generalizing kept with
  | nil => simp
  | cons b balances ih =>
    rw [List.foldl_cons, ih, List.map_cons, List.mem_cons]
    unfold keep
    by_cases hb : b.asset = asset
    · subst hb
      by_cases hscope : InScope client symbolAssets b.asset
      · rw [if_pos ⟨.inr htouched, hscope⟩, Std.TreeMap.mem_insert]
        simp [hscope]
      · rw [if_neg fun h => hscope h.2]
        simp [hscope]
    · have hmem : asset ∈ (if (amountOf lib b.free + amountOf lib b.locked > 0 ∨ b.asset ∈ deltas) ∧
          InScope client symbolAssets b.asset then
          kept.insert b.asset (amountOf lib b.free, amountOf lib b.locked) else kept) ↔
          asset ∈ kept := by
        split_ifs
        · rw [Std.TreeMap.mem_insert, Std.compare_eq_iff_eq]
          simp [hb]
        · rfl
      rw [hmem]
      simp [Ne.symm hb]

/-- What is kept of an asset was reported of it. -/
theorem getElem?_foldl_keep {symbolAssets : SymbolAssets} {deltas : Deltas}
    (balances : List AccountBalance) {kept : Balances} {asset : String} {v : ℚ × ℚ}
    (h : (balances.foldl (keep lib client symbolAssets deltas) kept)[asset]? = some v) :
    kept[asset]? = some v ∨
      ∃ b ∈ balances, b.asset = asset ∧ v = (amountOf lib b.free, amountOf lib b.locked) := by
  induction balances generalizing kept with
  | nil => exact .inl h
  | cons b balances ih =>
    rw [List.foldl_cons] at h
    rcases ih h with hkept | ⟨b', hb', hasset, hv⟩
    · unfold keep at hkept
      split_ifs at hkept
      · rw [Std.TreeMap.getElem?_insert] at hkept
        simp only [Std.compare_eq_iff_eq] at hkept
        by_cases hb : b.asset = asset
        · rw [if_pos hb] at hkept
          exact .inr ⟨b, List.mem_cons_self, hb, (Option.some.inj hkept).symm⟩
        · rw [if_neg hb] at hkept
          exact .inl hkept
      · exact .inl hkept
    · exact .inr ⟨b', List.mem_cons_of_mem _ hb', hasset, hv⟩

variable (lib catalog) in
/-- What the trades and flows since the connection do. -/
def movesSince (allTrades : List Trade) (allFlows : List NormalizedFlow) (sinceMs : ℕ) : List Move :=
  movesOf lib catalog (allTrades.filter fun t => sinceMs ≤ t.timeMs.toNat)
    (allFlows.filter fun f => sinceMs ≤ f.economicTimeMs.toNat)

variable (client) in
def Reported (asset : String) : Prop :=
  ∃ balances, client.fetchAccountBalances = .ok balances ∧
    asset ∈ balances.map AccountBalance.asset

instance (client : MarketData) (asset : String) : Decidable (Reported client asset) :=
  match h : client.fetchAccountBalances with
  | .ok balances => decidable_of_iff (asset ∈ balances.map AccountBalance.asset) (by
      unfold Reported
      simp [h])
  | .error _ => isFalse (by
      unfold Reported
      simp [h])

/-- What the reconstruction starts from, for a list of moves. -/
structure Prepared.Of (lib : Decimals) (client : MarketData) (catalog : SymbolAssets)
    (moves : List Move) (p : Prepared) : Prop where
  deltas : ∀ asset, (p.deltas.getD asset []).Perm (ofAsset asset moves)
  touched : ∀ asset, asset ∈ p.deltas ↔ asset ∈ moves.map Prod.fst
  followed : ∀ asset ∈ moves.map Prod.fst,
    asset ∈ p.currentBalances ↔ Reported client asset ∧ InScope client catalog asset
  reported : ∀ asset v, p.currentBalances[asset]? = some v → ∃ balances,
    client.fetchAccountBalances = .ok balances ∧ ∃ b ∈ balances, b.asset = asset ∧
      v = (amountOf lib b.free, amountOf lib b.locked)

/-- The markets that are found are those that are listed, for what is reported and touched. -/
theorem inScope_iff {symbolAssets more : SymbolAssets} {symbols : Finset String} {deltas : Deltas}
    {balances : List AccountBalance} {asset : String} (hlists : Lists client catalog)
    (hfirst : client.fetchSymbolAssetsFor symbols = .ok symbolAssets)
    (hmore : client.fetchSymbolAssetsFor (wantedMarkets lib client symbolAssets deltas balances) =
      .ok more)
    (htouched : asset ∈ deltas) (hreported : asset ∈ balances.map AccountBalance.asset) :
    InScope client (symbolAssets.insertMany more.toList) asset ↔ InScope client catalog asset := by
  unfold InScope
  by_cases hquote : asset = client.quoteCurrency
  · simp [hquote]
  · simp only [hquote, false_or]
    have hkeys : client.marketSymbol asset ∈ symbolAssets.insertMany more.toList ↔
        client.marketSymbol asset ∈ symbolAssets ∨ client.marketSymbol asset ∈ more := by
      rw [Std.TreeMap.mem_insertMany_list, Std.TreeMap.map_fst_toList_eq_keys,
        List.contains_iff_mem, Std.TreeMap.mem_keys]
    have hlisted (symbols : Finset String) (found : SymbolAssets)
        (hfound : client.fetchSymbolAssetsFor symbols = .ok found) (m : String) :
        m ∈ found ↔ m ∈ symbols ∧ m ∈ catalog := by
      rw [Std.TreeMap.mem_iff_isSome_getElem?, hlists.fetch symbols found hfound m,
        Std.TreeMap.mem_iff_isSome_getElem?]
      split_ifs with hm
      · simp [hm]
      · simp [hm]
    rw [hkeys, hlisted _ _ hfirst, hlisted _ _ hmore]
    constructor
    · rintro (h | h)
      · exact h.2
      · exact h.2
    · intro hcatalog
      by_cases hin : client.marketSymbol asset ∈ symbols
      · exact .inl ⟨hin, hcatalog⟩
      · refine .inr ⟨?_, hcatalog⟩
        obtain ⟨b, hb, rfl⟩ := List.mem_map.1 hreported
        unfold wantedMarkets
        rw [List.mem_toFinset, List.mem_filter, decide_eq_true_eq, hlisted _ _ hfirst]
        refine ⟨List.mem_map.2 ⟨b, ?_, rfl⟩, fun h => hin h.1⟩
        rw [List.mem_filter, decide_eq_true_eq]
        exact ⟨hb, hquote, .inr htouched⟩

/-- The markets that are kept are those of the catalog, of the symbols that are asked for; a trade's is asked for. -/
theorem prepare_markets {allTrades : List Trade} {allFlows : List NormalizedFlow} {sinceMs : ℕ} {p : Prepared}
    (hlists : Lists client catalog) (h : prepare lib client allTrades allFlows sinceMs = .ok p) :
    ∃ asked : Finset String, (∀ t ∈ p.trades, t.symbol ∈ asked) ∧
      ∀ symbol : String, p.symbolAssets[symbol]? = if symbol ∈ asked then catalog[symbol]? else none := by
  simp only [prepare, bind_ok, pure_ok, mapError_ok] at h
  obtain ⟨symbolAssets, hfirst, events, -, deltas, -, balances, -, more, hmore, kept, -, rfl⟩ := h
  dsimp only
  refine ⟨_ ∪ wantedMarkets lib client symbolAssets deltas balances,
    fun t ht => Finset.mem_union_left _ (List.mem_toFinset.2 (List.mem_map_of_mem ht)), fun symbol => ?_⟩
  rw [OrderedMap.getElem?_insertMany, hlists.fetch _ _ hfirst, hlists.fetch _ _ hmore]
  by_cases hwanted : symbol ∈ wantedMarkets lib client symbolAssets deltas balances
  · rw [if_pos hwanted, if_pos (Finset.mem_union_right _ hwanted)]
    split_ifs
    · exact Option.or_self
    · exact Option.or_none
  · simp only [Finset.mem_union, hwanted, or_false, if_false, Option.none_or]

theorem prepare_ok {allTrades : List Trade} {allFlows : List NormalizedFlow} {sinceMs : ℕ}
    {p : Prepared} (hlists : Lists client catalog)
    (hreads : ReadsBack lib (allTrades.filter fun t => sinceMs ≤ t.timeMs.toNat))
    (h : prepare lib client allTrades allFlows sinceMs = .ok p) :
    p.Of lib client catalog (movesSince lib catalog allTrades allFlows sinceMs) := by
  simp only [prepare, bind_ok, pure_ok, mapError_ok] at h
  obtain ⟨symbolAssets, hfirst, events, hevents, deltas, hdeltas, balances, hbalances, more, hmore,
    kept, hkept, rfl⟩ := h
  have hperm : (events.flatMap (eventMoves lib)).Perm
      (movesSince lib catalog allTrades allFlows sinceMs) := by
    refine collectLedgerEvents_moves (fun t _ assets hassets => ?_) hreads hevents
    rw [hlists.fetch _ _ hfirst] at hassets
    split_ifs at hassets
    exact hassets
  rw [perAssetDeltas_ok hdeltas] at hkept hmore ⊢
  have hfold := foldlM_ok (fun _ _ _ _ hb => keepBalance_ok hb) hkept
  have htouched (asset : String) : asset ∈ (events.flatMap (eventMoves lib)).foldl putMove ∅ ↔
      asset ∈ (movesSince lib catalog allTrades allFlows sinceMs).map Prod.fst := by
    rw [mem_foldl_putMove, (hperm.map _).mem_iff]
    simp
  refine ⟨fun asset => ?_, htouched, fun asset hasset => ?_, fun asset v hv => ?_⟩
  · rw [getD_foldl_putMove, Std.TreeMap.getD_emptyc, List.nil_append]
    exact ofAsset_perm hperm asset
  · dsimp only
    rw [hfold, mem_foldl_keep balances _ ((htouched asset).2 hasset)]
    unfold Reported
    simp only [hbalances, Except.ok.injEq, exists_eq_left', Std.TreeMap.not_mem_emptyc, false_or]
    exact and_congr_right fun hreported =>
      inScope_iff hlists hfirst hmore ((htouched asset).2 hasset) hreported
  · dsimp only at hv
    rw [hfold] at hv
    rcases getElem?_foldl_keep balances hv with hnone | hb
    · simp at hnone
    · exact ⟨balances, hbalances, hb⟩

end Prepared

section Quantities

variable {lib : Decimals} {client : MarketData} {catalog : SymbolAssets} {p : Prepared}
  {moves : List Move} {cutMs nowMs : ℕ} {quantities : List (String × ℚ)}

/-- What a reconstruction says is held of an asset; one that it leaves out counts as nothing. -/
def heldIn (quantities : List (String × ℚ)) (asset : String) : ℚ :=
  (quantities.lookup asset).getD 0

theorem quantitiesAt_ok {currentBalances : Balances} {deltas : Deltas}
    (h : quantitiesAt cutMs nowMs currentBalances deltas = .ok quantities) :
    quantities = currentBalances.toList.map fun b => (b.1, b.2.1 + b.2.2 +
      (addedUp (deltas.getD b.1 []) cutMs - addedUp (deltas.getD b.1 []) nowMs)) := by
  unfold quantitiesAt at h
  rw [mapM_ok] at h
  generalize currentBalances.toList = balances at h ⊢
  induction h with
  | nil => rfl
  | cons hfirst hrest ih =>
    simp only [bind_ok, mapError_ok, pure_ok] at hfirst
    obtain ⟨quantity, hquantity, rfl⟩ := hfirst
    rw [List.map_cons, ← ih, reconstructQuantity_ok hquantity]
    rfl

/-- The report is of what is held now: of each balance the whole of it, and nothing of an asset that is
left out. -/
structure Reports (lib : Decimals) (client : MarketData) (held : String → ℚ) : Prop where
  listed : ∀ balances, client.fetchAccountBalances = .ok balances → ∀ b ∈ balances,
    amountOf lib b.free + amountOf lib b.locked = held b.asset
  omitted : ∀ balances, client.fetchAccountBalances = .ok balances →
    ∀ asset ∉ balances.map AccountBalance.asset, held asset = 0

theorem heldIn_followed {opening : String → ℚ} (hp : p.Of lib client catalog moves)
    (hreport : Reports lib client (holdingsAt opening moves nowMs))
    (h : quantitiesAt cutMs nowMs p.currentBalances p.deltas = .ok quantities) {asset : String}
    (hfollowed : asset ∈ p.currentBalances) :
    heldIn quantities asset = holdingsAt opening moves cutMs asset := by
  rw [Std.TreeMap.mem_iff_isSome_getElem?, Option.isSome_iff_exists] at hfollowed
  obtain ⟨v, hv⟩ := hfollowed
  obtain ⟨balances, hbalances, b, hb, hasset, rfl⟩ := hp.reported asset v hv
  have hnow := hreport.listed balances hbalances b hb
  have hdeltas (t : ℕ) : addedUp (p.deltas.getD asset []) t = addedUp (ofAsset asset moves) t :=
    addedUp_perm (hp.deltas asset) t
  unfold heldIn
  rw [quantitiesAt_ok h, OrderedMap.lookup_map_toList, hv, Option.map_some, Option.getD_some]
  dsimp only
  rw [hnow, hasset, hdeltas, hdeltas, holdingsAt_eq, holdingsAt_eq]
  ring

theorem heldIn_not_followed
    (h : quantitiesAt cutMs nowMs p.currentBalances p.deltas = .ok quantities) {asset : String}
    (hfollowed : asset ∉ p.currentBalances) : heldIn quantities asset = 0 := by
  rw [Std.TreeMap.mem_iff_isSome_getElem?, Option.not_isSome_iff_eq_none] at hfollowed
  unfold heldIn
  rw [quantitiesAt_ok h, OrderedMap.lookup_map_toList, hfollowed]
  rfl

/-- The quantities that are reconstructed at a cut are the true ones for every touched asset, if and only
if a touched asset that is not reported, or is out of scope, was not held at the cut. -/
theorem quantities_true_iff {allTrades : List Trade} {allFlows : List NormalizedFlow} {sinceMs : ℕ}
    {opening : String → ℚ} (hlists : Lists client catalog) (hreads : ReadsBack lib allTrades)
    (hreport : Reports lib client
      (holdingsAt opening (movesSince lib catalog allTrades allFlows sinceMs) nowMs))
    (hprepare : prepare lib client allTrades allFlows sinceMs = .ok p)
    (h : quantitiesAt cutMs nowMs p.currentBalances p.deltas = .ok quantities) :
    (∀ asset ∈ (movesSince lib catalog allTrades allFlows sinceMs).map Prod.fst,
      heldIn quantities asset =
        holdingsAt opening (movesSince lib catalog allTrades allFlows sinceMs) cutMs asset) ↔
    ∀ asset ∈ (movesSince lib catalog allTrades allFlows sinceMs).map Prod.fst,
      Reported client asset ∧ InScope client catalog asset ∨
        holdingsAt opening (movesSince lib catalog allTrades allFlows sinceMs) cutMs asset = 0 := by
  have hp := prepare_ok hlists (fun t ht => hreads t (List.mem_of_mem_filter ht)) hprepare
  refine forall₂_congr fun asset htouched => ?_
  rw [← hp.followed asset htouched]
  by_cases hfollowed : asset ∈ p.currentBalances
  · simp [hfollowed, heldIn_followed hp hreport h hfollowed]
  · rw [heldIn_not_followed h hfollowed]
    simp [hfollowed, eq_comm]

end Quantities

section Example

/-- The amounts of the example and their texts. -/
def exampleDecimals : Decimals where
  fromStr text :=
    if text = "0" then some 0 else if text = "2" then some 2 else if text = "10" then some 10
    else if text = "20" then some 20 else none
  toString q := if q = 20 then "20" else "0"

def nicheCatalog : SymbolAssets := .ofList [("NICHEUSDT", ("NICHE", "USDT"))]

/-- A market for one asset, where the account has the balances given and every price is ten. -/
def nicheMarket (balances : List AccountBalance) : MarketData where
  quoteCurrency := "USDT"
  marketSymbol asset := asset ++ "USDT"
  fetchSymbolAssetsFor symbols := .ok (nicheCatalog.filter fun m _ => m ∈ symbols)
  fetchAccountBalances := .ok balances
  priceAtInstant _ _ := .ok 10

theorem nicheMarket_lists (balances : List AccountBalance) :
    Lists (nicheMarket balances) nicheCatalog := by
  refine ⟨fun symbols found h m => ?_⟩
  rw [← Except.ok.inj h, Std.TreeMap.getElem?_filter']
  rcases nicheCatalog[m]? with _ | assets
  · simp
  · simp [Option.filter]

/-- Two are bought for twenty, and sold for twenty. -/
def boughtAndSold : List Trade :=
  [⟨"NICHEUSDT", 1, "10", "2", "0", "USDT", 1000, true⟩,
   ⟨"NICHEUSDT", 2, "10", "2", "0", "USDT", 2000, false⟩]

theorem boughtAndSold_readsBack : ReadsBack exampleDecimals boughtAndSold := by
  unfold ReadsBack
  decide +kernel

/-- Twenty is what the account had before and what it has after. -/
def beforeTrades (asset : String) : ℚ := if asset = "USDT" then 20 else 0

def nicheMoves : List Move := movesSince exampleDecimals nicheCatalog boughtAndSold [] 0

theorem nicheMoves_held :
    nicheMoves.map Prod.fst = ["NICHE", "USDT", "USDT", "NICHE", "USDT", "USDT"] ∧
      holdingsAt beforeTrades nicheMoves 5000 "USDT" = 20 ∧
      holdingsAt beforeTrades nicheMoves 5000 "NICHE" = 0 ∧
      holdingsAt beforeTrades nicheMoves 1500 "NICHE" = 2 := by
  decide +kernel

theorem reports_niche {balances : List AccountBalance}
    (hlisted : ∀ b ∈ balances, amountOf exampleDecimals b.free + amountOf exampleDecimals b.locked =
      holdingsAt beforeTrades nicheMoves 5000 b.asset)
    (husdt : "USDT" ∈ balances.map AccountBalance.asset) :
    Reports exampleDecimals (nicheMarket balances) (holdingsAt beforeTrades nicheMoves 5000) := by
  refine ⟨fun balances' h b hb => ?_, fun balances' h asset hasset => ?_⟩
  · rw [← Except.ok.inj h] at hb
    exact hlisted b hb
  · rw [← Except.ok.inj h] at hasset
    rcases eq_or_ne asset "NICHE" with rfl | hniche
    · exact nicheMoves_held.2.2.1
    · have husdt' : asset ≠ "USDT" := by
        rintro rfl
        exact hasset husdt
      have hnone : ofAsset asset nicheMoves = [] := by
        unfold ofAsset
        rw [List.map_eq_nil_iff, List.filter_eq_nil_iff]
        intro m hm hsame
        have hin := List.mem_map_of_mem (f := Prod.fst) hm
        rw [nicheMoves_held.1, of_decide_eq_true hsame] at hin
        simp [hniche, husdt'] at hin
      rw [holdingsAt_eq, hnone]
      simp [beforeTrades, husdt', addedUp]

/-- What the worker makes of the two trades at a cut between them. -/
def nicheQuantities (balances : List AccountBalance) : Except HistoryError (List (String × ℚ)) := do
  let p ← prepare exampleDecimals (nicheMarket balances) boughtAndSold [] 0
  quantitiesAt 1500 5000 p.currentBalances p.deltas

theorem nicheQuantities_ok :
    (nicheQuantities [⟨"USDT", "20", "0"⟩]).toOption = some [("USDT", 0)] ∧
      (nicheQuantities [⟨"USDT", "20", "0"⟩, ⟨"NICHE", "0", "0"⟩]).toOption =
        some [("NICHE", 2), ("USDT", 0)] := by
  decide +kernel

theorem prepared_of_toOption {balances : List AccountBalance} {quantities : List (String × ℚ)}
    (h : (nicheQuantities balances).toOption = some quantities) :
    ∃ p, prepare exampleDecimals (nicheMarket balances) boughtAndSold [] 0 = .ok p ∧
      quantitiesAt 1500 5000 p.currentBalances p.deltas = .ok quantities := by
  have hok : nicheQuantities balances = .ok quantities := by
    rcases hr : nicheQuantities balances with e | q
    · rw [hr] at h
      cases h
    · rw [hr] at h
      rw [Option.some.inj h]
  unfold nicheQuantities at hok
  exact (bind_ok _ _ _).1 hok

/-- With a balance of nothing reported, what was sold is found at the cut. -/
theorem quantities_true_niche :
    ∃ p quantities, prepare exampleDecimals
        (nicheMarket [⟨"USDT", "20", "0"⟩, ⟨"NICHE", "0", "0"⟩]) boughtAndSold [] 0 = .ok p ∧
      quantitiesAt 1500 5000 p.currentBalances p.deltas = .ok quantities ∧
      ∀ asset ∈ nicheMoves.map Prod.fst,
        heldIn quantities asset = holdingsAt beforeTrades nicheMoves 1500 asset := by
  obtain ⟨p, hprepare, h⟩ := prepared_of_toOption nicheQuantities_ok.2
  refine ⟨p, _, hprepare, h, (quantities_true_iff (nicheMarket_lists _) boughtAndSold_readsBack
    (reports_niche ?_ (by simp)) hprepare h).2 fun asset hasset => .inl ?_⟩
  · have hheld := nicheMoves_held
    intro b hb
    simp only [List.mem_cons, List.not_mem_nil, or_false] at hb
    rcases hb with rfl | rfl
    · rw [hheld.2.1]
      decide +kernel
    · rw [hheld.2.2.1]
      decide +kernel
  · have hassets := nicheMoves_held.1
    unfold nicheMoves at hassets
    rw [hassets] at hasset
    simp only [List.mem_cons, List.not_mem_nil, or_false] at hasset
    have hniche : Reported (nicheMarket [⟨"USDT", "20", "0"⟩, ⟨"NICHE", "0", "0"⟩]) "NICHE" ∧
        InScope (nicheMarket [⟨"USDT", "20", "0"⟩, ⟨"NICHE", "0", "0"⟩]) nicheCatalog "NICHE" :=
      ⟨⟨_, rfl, by simp⟩, by decide⟩
    have husdt : Reported (nicheMarket [⟨"USDT", "20", "0"⟩, ⟨"NICHE", "0", "0"⟩]) "USDT" ∧
        InScope (nicheMarket [⟨"USDT", "20", "0"⟩, ⟨"NICHE", "0", "0"⟩]) nicheCatalog "USDT" :=
      ⟨⟨_, rfl, by simp⟩, .inl rfl⟩
    rcases hasset with rfl | rfl | rfl | rfl | rfl | rfl
    · exact hniche
    · exact husdt
    · exact husdt
    · exact hniche
    · exact husdt
    · exact husdt

/-- Without it, the account held two at the cut and nothing is found. -/
theorem sold_asset_missing :
    ∃ p quantities, prepare exampleDecimals (nicheMarket [⟨"USDT", "20", "0"⟩]) boughtAndSold [] 0 =
        .ok p ∧
      quantitiesAt 1500 5000 p.currentBalances p.deltas = .ok quantities ∧
      Reports exampleDecimals (nicheMarket [⟨"USDT", "20", "0"⟩])
        (holdingsAt beforeTrades nicheMoves 5000) ∧
      "NICHE" ∈ nicheMoves.map Prod.fst ∧ InScope (nicheMarket [⟨"USDT", "20", "0"⟩]) nicheCatalog
        "NICHE" ∧
      holdingsAt beforeTrades nicheMoves 1500 "NICHE" = 2 ∧ heldIn quantities "NICHE" = 0 := by
  obtain ⟨p, hprepare, h⟩ := prepared_of_toOption nicheQuantities_ok.1
  obtain ⟨hassets, husdt, -, hcut⟩ := nicheMoves_held
  refine ⟨p, _, hprepare, h, reports_niche ?_ (by simp), ?_, by decide, hcut, rfl⟩
  · intro b hb
    rw [List.mem_singleton.1 hb, husdt]
    decide +kernel
  · rw [hassets]
    simp

end Example

end Linvesther.Worker
