import Linvesther.Base.FirstWins
import Linvesther.Base.OrderedMap

/-! Coinbase lists fills and balances, but no deposits and withdrawals. What the fills between two snapshots
do not explain of a change in the balances is taken for a transfer. -/

namespace Linvesther.Worker.Coinbase

section Model

/-- A trade as Coinbase reports it. A figure is `none` where its text is no decimal. -/
structure Fill where
  entryId : String
  productId : String
  isBuy : Bool
  price : Option ℚ
  size : Option ℚ
  sizeInQuote : Bool
  commission : Option ℚ
  tradeTimeMs : ℕ
deriving DecidableEq

structure AccountBalance where
  asset : String
  free : ℚ
  locked : ℚ

/-- `BTreeMap<String, Decimal>`. -/
abbrev Amounts := Std.TreeMap String ℚ

def SETTLE_MS : ℕ := 5000
def DUST_QUOTE : ℚ := 1 / 100
def DUST_OTHER : ℚ := 1 / 100000000

/-- `*map.entry(asset).or_default() += amount`. -/
def addTo (amounts : Amounts) (p : String × ℚ) : Amounts := amounts.insert p.1 (amounts.getD p.1 0 + p.2)

def splitProduct (productId : String) : Option (String × String) :=
  match productId.toList.span (· ≠ '-') with
  | (base, _ :: quote) => some (String.ofList base, String.ofList quote)
  | (_, []) => none

def fillAmounts (fill : Fill) : Option (ℚ × ℚ) := do
  let price ← fill.price
  let size ← fill.size
  if price = 0 then none
  else if fill.sizeInQuote then some (size / price, size)
  else some (size, size * price)

def fillEffects (fill : Fill) : List (String × ℚ) :=
  match splitProduct fill.productId, fillAmounts fill, fill.commission with
  | some (base, quote), some (baseAmount, quoteAmount), some fee =>
    if fill.isBuy then [(base, baseAmount), (quote, -(quoteAmount + fee))]
    else [(base, -baseAmount), (quote, quoteAmount - fee)]
  | _, _, _ => []

def dust (asset : String) : ℚ :=
  if asset ∈ ["USD", "USDC", "USDT", "EUR", "GBP"] then DUST_QUOTE else DUST_OTHER

def inferTransfers (before now : Amounts) (fills : List Fill) : Amounts :=
  let explained := (fills.flatMap fillEffects).foldl addTo ∅
  let assets := before.keys ++ now.keys ++ explained.keys
  assets.foldl (fun transfers asset =>
    let external := now.getD asset 0 - before.getD asset 0 - explained.getD asset 0
    if dust asset < |external| then transfers.insert asset external else transfers) ∅

def totals (balances : List AccountBalance) : Amounts :=
  balances.foldl (fun totals balance =>
    let total := balance.free + balance.locked
    if total = 0 then totals else addTo totals (balance.asset, total)) ∅

end Model

section Sums

/-- What a list of amounts comes to for one asset. -/
def sumOf (asset : String) (amounts : List (String × ℚ)) : ℚ :=
  (amounts.map fun p => if p.1 = asset then p.2 else 0).sum

variable {asset : String} {amounts more : List (String × ℚ)}

@[simp]
theorem sumOf_nil : sumOf asset [] = 0 := rfl

@[simp]
theorem sumOf_cons (p : String × ℚ) :
    sumOf asset (p :: amounts) = (if p.1 = asset then p.2 else 0) + sumOf asset amounts := by
  simp [sumOf]

@[simp]
theorem sumOf_append : sumOf asset (amounts ++ more) = sumOf asset amounts + sumOf asset more := by
  simp [sumOf]

theorem sumOf_perm (h : amounts.Perm more) : sumOf asset amounts = sumOf asset more :=
  (h.map _).sum_eq

theorem getD_addTo (totals : Amounts) (p : String × ℚ) :
    (addTo totals p).getD asset 0 = totals.getD asset 0 + if p.1 = asset then p.2 else 0 := by
  unfold addTo
  rw [Std.TreeMap.getD_insert]
  by_cases h : p.1 = asset
  · simp [h]
  · have hne : compare p.1 asset ≠ .eq := fun hc => h (Std.LawfulEqCmp.eq_of_compare hc)
    simp [h, hne]

theorem getD_foldl_addTo (totals : Amounts) :
    (amounts.foldl addTo totals).getD asset 0 = totals.getD asset 0 + sumOf asset amounts := by
  induction amounts generalizing totals with
  | nil => simp
  | cons p amounts ih =>
    rw [List.foldl_cons, ih, getD_addTo, sumOf_cons, add_assoc]

/-- What an account holds of an asset. -/
def held (asset : String) (balances : List AccountBalance) : ℚ :=
  sumOf asset (balances.map fun b => (b.asset, b.free + b.locked))

/-- The totals are what the accounts hold. -/
theorem getD_totals (balances : List AccountBalance) : (totals balances).getD asset 0 = held asset balances := by
  have hfold : ∀ acc : Amounts, (balances.foldl (fun totals balance =>
      let total := balance.free + balance.locked
      if total = 0 then totals else addTo totals (balance.asset, total)) acc).getD asset 0 =
        acc.getD asset 0 + held asset balances := by
    induction balances with
    | nil =>
      intro acc
      simp [held]
    | cons b balances ih =>
      intro acc
      rw [List.foldl_cons, ih]
      simp only [held, List.map_cons, sumOf_cons]
      split_ifs with hzero hasset hasset
      · simp [hzero]
      · simp
      · rw [getD_addTo]
        simp [hasset, add_assoc]
      · rw [getD_addTo]
        simp [hasset]
  unfold totals
  rw [hfold]
  simp

end Sums

section Inference

/-- What the fills explain of an asset. -/
def explained (asset : String) (fills : List Fill) : ℚ := sumOf asset (fills.flatMap fillEffects)

theorem explained_perm {asset : String} {fills fills' : List Fill} (h : fills.Perm fills') :
    explained asset fills = explained asset fills' :=
  sumOf_perm (h.flatMap_right _)

/-- A difference is a transfer where it is beyond dust. -/
def asTransfer (asset : String) (difference : ℚ) : Option ℚ :=
  if dust asset < |difference| then some difference else none

variable {before now : Amounts} {fills : List Fill} {asset : String}

theorem dust_pos (asset : String) : 0 < dust asset := by
  unfold dust DUST_QUOTE DUST_OTHER
  split_ifs <;> norm_num

theorem getD_of_notMem {amounts : Amounts} (h : asset ∉ amounts.keys) : amounts.getD asset 0 = 0 := by
  apply Std.TreeMap.getD_eq_fallback
  rwa [Std.TreeMap.mem_keys] at h

/-- Each asset's unexplained difference is found, and found once. -/
theorem getElem?_inferTransfers (asset : String) : (inferTransfers before now fills)[asset]? =
    asTransfer asset (now.getD asset 0 - before.getD asset 0 - explained asset fills) := by
  have hexplained : ∀ a, ((fills.flatMap fillEffects).foldl addTo ∅).getD a 0 = explained a fills := by
    intro a
    rw [getD_foldl_addTo]
    simp [explained]
  unfold inferTransfers
  simp only [hexplained]
  set assets := before.keys ++ now.keys ++ ((fills.flatMap fillEffects).foldl addTo ∅).keys with hassets
  rw [OrderedMap.getElem?_foldl_insert
    (fun a => dust a < |now.getD a 0 - before.getD a 0 - explained a fills|)
    fun a => now.getD a 0 - before.getD a 0 - explained a fills]
  unfold asTransfer
  by_cases hmem : asset ∈ assets
  · simp [hmem]
  · -- an asset that is in none of the maps has not changed
    rw [hassets, List.mem_append, List.mem_append, not_or, not_or] at hmem
    have hnone := hexplained asset
    rw [getD_of_notMem hmem.2] at hnone
    have hnear : ¬ dust asset < |(0 : ℚ) - 0 - 0| := by
      simpa using (dust_pos asset).le
    rw [getD_of_notMem hmem.1.1, getD_of_notMem hmem.1.2, ← hnone, if_neg hnear, if_neg fun h => hnear h.2]
    simp

end Inference

end Linvesther.Worker.Coinbase
