import Linvesther.Worker.Coinbase
import Linvesther.Worker.Kraken

/-! A Coinbase fill is read twice: what it did to the balances, to find the transfers, and as a trade, from which the
engine makes a ledger event. -/

namespace Linvesther.Worker.Coinbase

open Transaction Domain

section Trades

/-- A fill as it is stored, with its figures as texts. -/
structure StoredFill where
  entryId : String
  productId : String
  isBuy : Bool
  price : String
  size : String
  sizeInQuote : Bool
  commission : String
  tradeTimeMs : UInt64
deriving DecidableEq

/-- A number for an identifier that is a text: its bytes hashed, with wrapping arithmetic. -/
def stableId (text : String) : UInt64 :=
  text.toUTF8.data.toList.foldl (fun hash byte => (hash ^^^ byte.toUInt64) * 0x100000001b3) 0xcbf29ce484222325

variable (lib : Decimals)

def StoredFill.read (fill : StoredFill) : Fill where
  entryId := fill.entryId
  productId := fill.productId
  isBuy := fill.isBuy
  price := lib.fromStr fill.price
  size := lib.fromStr fill.size
  sizeInQuote := fill.sizeInQuote
  commission := lib.fromStr fill.commission
  tradeTimeMs := fill.tradeTimeMs.toNat

/-- A fill as a trade; its fee is charged in the quote currency. -/
def StoredFill.trade (fill : StoredFill) (quote qty : String) : Trade where
  symbol := fill.productId
  id := stableId fill.entryId
  price := fill.price
  qty := qty
  commission := fill.commission
  commissionAsset := quote
  timeMs := fill.tradeTimeMs
  isBuyer := fill.isBuy

def tradeOf (fill : StoredFill) : Option Trade := do
  let (_, quote) ← splitProduct fill.productId
  let (baseAmount, _) ← fillAmounts (fill.read lib)
  pure (fill.trade quote (lib.toString baseAmount))

def trades (stored : List StoredFill) : List Trade := stored.filterMap (tradeOf lib)

end Trades

section Readable

variable (lib : Decimals)

/-- The figures of a fill can be read, and the two that its trade writes read back. -/
structure StoredFill.Readable (fill : StoredFill) : Prop where
  price : (lib.fromStr fill.price).isSome
  size : (lib.fromStr fill.size).isSome
  commission : (lib.fromStr fill.commission).isSome
  writesBack : ∀ amounts, fillAmounts (fill.read lib) = some amounts →
    lib.fromStr (lib.toString amounts.1) = some amounts.1 ∧
      lib.fromStr (lib.toString (amountOf lib fill.price * amounts.1)) = some (amountOf lib fill.price * amounts.1)

/-- What a list of moves comes to for one asset. -/
def netOf (asset : String) (moves : List Worker.Move) : ℚ := ((ofAsset asset moves).map TimedDelta.delta).sum

variable {lib} {asset : String}

theorem netOf_perm {moves moves' : List Worker.Move} (h : moves.Perm moves') : netOf asset moves = netOf asset moves' :=
  ((ofAsset_perm h asset).map _).sum_eq

theorem netOf_append (moves moves' : List Worker.Move) :
    netOf asset (moves ++ moves') = netOf asset moves + netOf asset moves' := by
  simp [netOf, ofAsset_append]

theorem netOf_cons (timeMs : ℕ) (a : String) (amount : ℚ) (isCredit : Bool) (moves : List Worker.Move) :
    netOf asset (move timeMs a amount isCredit :: moves) =
      (if a = asset then if isCredit then amount else -amount else 0) + netOf asset moves := by
  rw [← List.singleton_append, netOf_append]
  congr 1
  by_cases h : a = asset
  · simp [netOf, ofAsset, move, h]
  · simp [netOf, ofAsset, move, h]

theorem fillAmounts_eq {fill : Fill} {amounts : ℚ × ℚ} (h : fillAmounts fill = some amounts) :
    ∃ price, fill.price = some price ∧ price * amounts.1 = amounts.2 := by
  unfold fillAmounts at h
  rw [Option.bind_eq_bind, Option.bind_eq_some_iff] at h
  obtain ⟨price, hprice, h⟩ := h
  rw [Option.bind_eq_some_iff] at h
  obtain ⟨size, -, h⟩ := h
  refine ⟨price, hprice, ?_⟩
  split_ifs at h with hzero hquote
  · rw [← Option.some.inj h]
    exact mul_div_cancel₀ size hzero
  · rw [← Option.some.inj h]
    exact mul_comm price size

theorem tradeOf_some {fill : StoredFill} {trade : Trade} (h : tradeOf lib fill = some trade) :
    ∃ base quote baseAmount quoteAmount, splitProduct fill.productId = some (base, quote) ∧
      fillAmounts (fill.read lib) = some (baseAmount, quoteAmount) ∧
      trade = fill.trade quote (lib.toString baseAmount) := by
  unfold tradeOf at h
  rw [Option.bind_eq_bind, Option.bind_eq_some_iff] at h
  obtain ⟨⟨base, quote⟩, hsplit, h⟩ := h
  rw [Option.bind_eq_bind, Option.bind_eq_some_iff] at h
  obtain ⟨⟨baseAmount, quoteAmount⟩, hamounts, h⟩ := h
  exact ⟨base, quote, baseAmount, quoteAmount, hsplit, hamounts, (Option.some.inj h).symm⟩

theorem amountOf_eq {text : String} {d : ℚ} (h : lib.fromStr text = some d) : amountOf lib text = d := by
  unfold amountOf
  rw [h]
  rfl

/-- The exchange lists a product under the two currencies of its name. -/
def Names (catalog : SymbolAssets) (productId : String) : Prop :=
  ∀ pair, splitProduct productId = some pair → catalog[productId]? = some pair

/-- The changes of a fill's trade are those of the fill. -/
theorem tradeOf_moves {catalog : SymbolAssets} {fill : StoredFill} {trade : Trade} (h : fill.Readable lib)
    (hcatalog : Names catalog fill.productId) (htrade : tradeOf lib fill = some trade) :
    netOf asset (trade.moves lib catalog) = sumOf asset (fillEffects (fill.read lib)) := by
  obtain ⟨base, quote, baseAmount, quoteAmount, hsplit, hamounts, rfl⟩ := tradeOf_some htrade
  obtain ⟨price, hprice, hquote⟩ := fillAmounts_eq hamounts
  obtain ⟨fee, hfee⟩ := Option.isSome_iff_exists.1 h.commission
  have hpriceOf : amountOf lib fill.price = price := amountOf_eq hprice
  have hqty : amountOf lib (lib.toString baseAmount) = baseAmount := amountOf_eq (h.writesBack _ hamounts).1
  have hfeeOf : amountOf lib fill.commission = fee := amountOf_eq hfee
  have heffects : fillEffects (fill.read lib) =
      if fill.isBuy then [(base, baseAmount), (quote, -(quoteAmount + fee))]
      else [(base, -baseAmount), (quote, quoteAmount - fee)] := by
    unfold fillEffects
    rw [show splitProduct (fill.read lib).productId = some (base, quote) from hsplit, hamounts,
      show (fill.read lib).commission = some fee from hfee]
    rfl
  have hassets : catalog.getD fill.productId ("", "") = (base, quote) := by
    rw [Std.TreeMap.getD_eq_getD_getElem?, hcatalog _ hsplit]
    rfl
  unfold Trade.moves StoredFill.trade
  dsimp only
  rw [hassets, hqty, hpriceOf, hfeeOf, hquote, heffects]
  have hnone : netOf asset [] = 0 := rfl
  simp only [netOf_cons, hnone]
  cases fill.isBuy with
  | true =>
    simp only [if_true, Bool.not_true, Bool.false_eq_true, if_false, sumOf_cons, sumOf_nil]
    by_cases hasset : quote = asset
    · simp only [if_pos hasset]
      ring
    · simp only [if_neg hasset]
      ring
  | false =>
    simp only [Bool.not_false, if_true, Bool.false_eq_true, if_false, sumOf_cons, sumOf_nil]
    by_cases hasset : quote = asset
    · simp only [if_pos hasset]
      ring
    · simp only [if_neg hasset]
      ring

/-- A fill that is no trade has no effects. -/
theorem fillEffects_of_no_trade {fill : StoredFill} (h : tradeOf lib fill = none) :
    fillEffects (fill.read lib) = [] := by
  unfold fillEffects
  rcases hsplit : splitProduct (fill.read lib).productId with _ | ⟨base, quote⟩
  · rfl
  · rcases hamounts : fillAmounts (fill.read lib) with _ | ⟨baseAmount, quoteAmount⟩
    · rfl
    · have hsplit' : splitProduct fill.productId = some (base, quote) := hsplit
      unfold tradeOf at h
      rw [hsplit', hamounts] at h
      cases h

theorem trades_moves {catalog : SymbolAssets} {stored : List StoredFill}
    (h : ∀ fill ∈ stored, fill.Readable lib) (hcatalog : ∀ fill ∈ stored, Names catalog fill.productId) :
    netOf asset ((trades lib stored).flatMap (Trade.moves lib catalog)) =
      explained asset (stored.map (StoredFill.read lib)) := by
  unfold trades
  induction stored with
  | nil => rfl
  | cons fill stored ih =>
    obtain ⟨hfill, hrest⟩ := List.forall_mem_cons.1 h
    obtain ⟨hname, hnames⟩ := List.forall_mem_cons.1 hcatalog
    have hexplained : explained asset ((fill :: stored).map (StoredFill.read lib)) =
        sumOf asset (fillEffects (fill.read lib)) + explained asset (stored.map (StoredFill.read lib)) := by
      simp [explained]
    rw [hexplained, ← ih hrest hnames]
    rcases htrade : tradeOf lib fill with _ | trade
    · rw [List.filterMap_cons_none htrade, fillEffects_of_no_trade htrade, sumOf_nil, zero_add]
    · rw [List.filterMap_cons_some htrade, List.flatMap_cons, netOf_append, tradeOf_moves hfill hname htrade]

end Readable

section Engine

variable {lib : Decimals} {catalog : SymbolAssets}

theorem parseDecimal_exists {text : String} (h : (lib.fromStr text).isSome) :
    ∃ d, parseDecimal lib text = .ok d := by
  obtain ⟨d, hd⟩ := Option.isSome_iff_exists.1 h
  refine ⟨d, ?_⟩
  unfold parseDecimal
  rw [hd]

/-- The engine can read what it makes of a fill's trade. -/
theorem tradeEvent_exists {fill : StoredFill} {trade : Trade} (h : fill.Readable lib)
    (hcatalog : Names catalog fill.productId) (htrade : tradeOf lib fill = some trade) :
    ∃ event, tradeEvent lib catalog trade = .ok event ∧
      ∀ leg ∈ event.allLegs, (lib.fromStr leg.amount).isSome := by
  obtain ⟨base, quote, baseAmount, quoteAmount, hsplit, hamounts, rfl⟩ := tradeOf_some htrade
  obtain ⟨hqty, hcost⟩ := h.writesBack _ hamounts
  dsimp only at hqty hcost
  obtain ⟨price, hprice⟩ := parseDecimal_exists h.price
  have hparsed : parseDecimal lib (lib.toString baseAmount) = .ok baseAmount := by
    unfold parseDecimal
    rw [hqty]
  rw [(parseDecimal_ok hprice).2] at hcost
  unfold tradeEvent tradeToLedgerEvent StoredFill.trade
  dsimp only
  rw [hcatalog _ hsplit, hprice, hparsed]
  refine ⟨_, rfl, ?_⟩
  simp [LedgerEvent.allLegs, hqty, hcost, h.commission]

theorem tradeEvents_exist {stored : List StoredFill} (h : ∀ fill ∈ stored, fill.Readable lib)
    (hcatalog : ∀ fill ∈ stored, Names catalog fill.productId) :
    ∃ events, collectLedgerEvents lib (trades lib stored) [] catalog = .ok events ∧
      ∀ event ∈ events, ∀ leg ∈ event.allLegs, (lib.fromStr leg.amount).isSome := by
  have heach : ∀ trade ∈ trades lib stored, ∃ event, tradeEvent lib catalog trade = .ok event ∧
      ∀ leg ∈ event.allLegs, (lib.fromStr leg.amount).isSome := by
    intro trade htrade
    obtain ⟨fill, hfill, htrade⟩ := List.mem_filterMap.1 htrade
    exact tradeEvent_exists (h fill hfill) (hcatalog fill hfill) htrade
  obtain ⟨events, hevents, hlegs⟩ := mapM_exists heach
  refine ⟨_, (bind_ok _ _ _).2 ⟨events, hevents, rfl⟩, fun event hevent => ?_⟩
  rw [List.mem_insertionSort, List.map_nil, List.append_nil] at hevent
  exact hlegs event hevent

theorem perAssetDeltas_exists {events : List LedgerEvent}
    (h : ∀ event ∈ events, ∀ leg ∈ event.allLegs, (lib.fromStr leg.amount).isSome) :
    ∃ deltas, perAssetDeltas lib events = .ok deltas := by
  refine foldlM_exists (fun deltas event hevent => foldlM_exists (fun deltas leg hleg => ?_) deltas) ∅
  obtain ⟨amount, hamount⟩ := parseDecimal_exists (h event hevent leg hleg)
  unfold addDelta
  rw [hamount]
  exact ⟨_, rfl⟩

/-- The engine's deltas of the trades of fills are what the fills explain. -/
theorem trades_explained {stored : List StoredFill} (h : ∀ fill ∈ stored, fill.Readable lib)
    (hcatalog : ∀ fill ∈ stored, Names catalog fill.productId) :
    ∃ events deltas, collectLedgerEvents lib (trades lib stored) [] catalog = .ok events ∧
      perAssetDeltas lib events = .ok deltas ∧ ∀ asset,
        ((deltas.getD asset []).map TimedDelta.delta).sum = explained asset (stored.map (StoredFill.read lib)) := by
  obtain ⟨events, hevents, hlegs⟩ := tradeEvents_exist h hcatalog
  obtain ⟨deltas, hdeltas⟩ := perAssetDeltas_exists hlegs
  refine ⟨events, deltas, hevents, hdeltas, fun asset => ?_⟩
  have hreads : ReadsBack lib (trades lib stored) := by
    intro trade htrade
    obtain ⟨fill, hfill, htrade⟩ := List.mem_filterMap.1 htrade
    obtain ⟨base, quote, baseAmount, quoteAmount, -, hamounts, rfl⟩ := tradeOf_some htrade
    obtain ⟨hqty, hcost⟩ := (h fill hfill).writesBack _ hamounts
    dsimp only [StoredFill.trade] at hqty hcost ⊢
    rw [amountOf_eq hqty]
    exact hcost
  have hmoves := collectLedgerEvents_moves (fun _ _ _ hassets => hassets) hreads hevents
  rw [perAssetDeltas_ok hdeltas, getD_foldl_putMove, Std.TreeMap.getD_emptyc, List.nil_append]
  change netOf asset _ = _
  rw [netOf_perm hmoves, ← trades_moves h hcatalog]
  simp [movesOf]

/-- What a fill does is the same as a fill and as a ledger event. -/
theorem fill_paths_agree {fill : StoredFill} (h : fill.Readable lib) (hcatalog : Names catalog fill.productId) :
    ∃ events deltas, collectLedgerEvents lib (trades lib [fill]) [] catalog = .ok events ∧
      perAssetDeltas lib events = .ok deltas ∧ ∀ asset,
        ((deltas.getD asset []).map TimedDelta.delta).sum = sumOf asset (fillEffects (fill.read lib)) := by
  have hlist := @trades_explained lib catalog [fill] (by simpa using h) (by simpa using hcatalog)
  simpa [explained] using hlist

/-- A hundred dollars spent on Bitcoin, for a fee of one. -/
def spentFill : StoredFill := ⟨"e1", "BTC-USD", true, "100", "100", true, "1", 1000⟩

def spentCatalog : SymbolAssets := (∅ : SymbolAssets).insert "BTC-USD" ("BTC", "USD")

theorem fill_paths_agree_spent :
    ∃ events deltas, collectLedgerEvents ledgerDecimals (trades ledgerDecimals [spentFill]) [] spentCatalog =
        .ok events ∧ perAssetDeltas ledgerDecimals events = .ok deltas ∧ ∀ asset,
        ((deltas.getD asset []).map TimedDelta.delta).sum =
          sumOf asset (fillEffects (spentFill.read ledgerDecimals)) := by
  have hsplit : splitProduct spentFill.productId = some ("BTC", "USD") := by decide +kernel
  have hamounts : fillAmounts (spentFill.read ledgerDecimals) = some (1, 100) := by decide +kernel
  refine fill_paths_agree ⟨by decide +kernel, by decide +kernel, by decide +kernel, ?_⟩ ?_
  · intro amounts h
    rw [hamounts] at h
    obtain rfl := Option.some.inj h
    decide +kernel
  · intro pair h
    rw [hsplit] at h
    obtain rfl := Option.some.inj h
    exact Std.TreeMap.getElem?_insert_self

end Engine

end Linvesther.Worker.Coinbase
