import Linvesther.Base.AverageCost
import Linvesther.Worker.FetchOrder
import Linvesther.Worker.FillPricing

/-! Profit against value, for an account that only trades: what the summary of the profits says, against what the
account is worth at the end and at the beginning. A commission counts in full as a fee and stays in the lot it was
paid from. -/

namespace Linvesther.Worker

open Transaction Domain AverageCost StableSort

section Prices

variable (client : MarketData) (price : String → ℕ → ℚ)

/-- A market that reports a price function of time. -/
def PricedBy : Prop := ∀ asset timeMs r, client.priceAtInstant asset timeMs = .ok r → r = price asset timeMs

def worthAt (asset : String) (timeMs : ℕ) : ℚ := worth client (fun a => price a timeMs) asset

variable {client price}

theorem PricedBy.at (h : PricedBy client price) (timeMs : ℕ) :
    ConstantPrices client (fun a => price a timeMs) timeMs timeMs := by
  intro asset t r hle hge hr
  rw [le_antisymm hle hge]
  exact h asset t r hr

theorem PricedBy.resolved (h : PricedBy client price) {asset : String} {timeMs : ℕ} {r : ℚ}
    (hr : resolveHistoricalPrice client asset timeMs = .ok r) : r = worthAt client price asset timeMs :=
  resolveHistoricalPrice_ok (h.at timeMs) le_rfl le_rfl hr

theorem worthAt_quote (timeMs : ℕ) : worthAt client price client.quoteCurrency timeMs = 1 := if_pos rfl

end Prices

section Postings

/-- What a fill posts: what it exchanges, and its commission. -/
inductive Posting where
  | leg (timeMs : ℕ) (asset : String) (quantity : ℚ) (isCredit : Bool)
  | commission (timeMs : ℕ) (asset : String) (quantity : ℚ)

def Posting.asset : Posting → String
  | .leg _ asset _ _ => asset
  | .commission _ asset _ => asset

def Posting.quantity : Posting → ℚ
  | .leg _ _ quantity _ => quantity
  | .commission _ _ quantity => quantity

def Posting.toMove : Posting → Move
  | .leg timeMs asset quantity isCredit => Linvesther.Worker.move timeMs asset quantity isCredit
  | .commission timeMs asset quantity => Linvesther.Worker.move timeMs asset quantity false

variable (lib : Decimals) (client : MarketData) (catalog : SymbolAssets) (price : String → ℕ → ℚ)

def Trade.postings (t : Trade) : List Posting :=
  let assets := catalog.getD t.symbol ("", "")
  [.leg t.timeMs.toNat assets.1 (amountOf lib t.qty) t.isBuyer,
   .leg t.timeMs.toNat assets.2 (amountOf lib t.price * amountOf lib t.qty) (!t.isBuyer),
   .commission t.timeMs.toNat t.commissionAsset (amountOf lib t.commission)]

/-- The trades in the order of time, in the order they came in where times are equal. -/
def chronological (trades : List Trade) : List Trade :=
  trades.insertionSort fun a b => a.timeMs.toNat ≤ b.timeMs.toNat

def postingsOf (trades : List Trade) : List Posting := (chronological trades).flatMap (Trade.postings lib catalog)

def Posting.events : Posting → List PnlEvent
  | .leg timeMs asset quantity isCredit =>
    if asset = client.quoteCurrency then []
    else if isCredit then [.acquire asset quantity (worthAt client price asset timeMs)]
    else [.dispose asset quantity (worthAt client price asset timeMs)]
  | .commission timeMs asset quantity => [.fee (quantity * worthAt client price asset timeMs)]

/-- What a posting moves in the book of an asset; a commission is not booked. -/
def Posting.booked (asset : String) : Posting → List (ℚ × ℚ)
  | .leg timeMs a quantity isCredit =>
    if a = asset then [(if isCredit then quantity else -quantity, worthAt client price a timeMs)] else []
  | .commission _ _ _ => []

def bookedOf (asset : String) (postings : List Posting) : List (ℚ × ℚ) :=
  postings.flatMap (Posting.booked client price asset)

/-- What a posting pays of an asset as commission. -/
def Posting.paidIn (asset : String) : Posting → ℚ
  | .leg _ _ _ _ => 0
  | .commission _ a quantity => if a = asset then quantity else 0

def paidIn (asset : String) (postings : List Posting) : ℚ := (postings.map (Posting.paidIn asset)).sum

/-- The book of an asset at the connection. -/
def openingBook (held : ℚ) (asset : String) (sinceMs : ℕ) : Book ℚ :=
  Book.empty.move (held, worthAt client price asset sinceMs)

/-- What a unit of an asset cost on average after the postings; the quote currency costs what it is worth. -/
def unitCost (opening : String → ℚ) (sinceMs : ℕ) (postings : List Posting) (asset : String) : ℚ :=
  if asset = client.quoteCurrency then 1
  else ((openingBook client price (opening asset) asset sinceMs).run (bookedOf client price asset postings)).cost

/-- What the commissions cost at the end, less what they were worth when they were paid. -/
def commissionDrift (opening : String → ℚ) (sinceMs : ℕ) (trades : List Trade) : ℚ :=
  (trades.map fun t => amountOf lib t.commission *
    (unitCost client price opening sinceMs (postingsOf lib catalog trades) t.commissionAsset -
      worthAt client price t.commissionAsset t.timeMs.toNat)).sum

/-- An account that has of nothing less than nothing at any time. -/
def Solvent (opening : String → ℚ) (moves : List Move) : Prop :=
  ∀ done rest, (moves.insertionSort fun a b => a.2.timeMs ≤ b.2.timeMs) = done ++ rest →
    ∀ asset, 0 ≤ done.foldl applyMove opening asset

/-- An account that was connected with what it had, and that only traded since, at the prices of the market. -/
structure OnlyTrades (opening : String → ℚ) (trades : List Trade) (sinceMs nowMs : ℕ) : Prop where
  lists : Lists client catalog
  reads : ReadsBack lib trades
  prices : PricedBy client price
  agrees : ∀ t ∈ trades, worthAt client price (catalog.getD t.symbol ("", "")).1 t.timeMs.toNat =
    amountOf lib t.price * worthAt client price (catalog.getD t.symbol ("", "")).2 t.timeMs.toNat
  amounts : ∀ t ∈ trades, 0 ≤ amountOf lib t.price ∧ 0 ≤ amountOf lib t.qty ∧ 0 ≤ amountOf lib t.commission
  times : ∀ t ∈ trades, sinceMs ≤ t.timeMs.toNat ∧ t.timeMs.toNat ≤ nowMs
  reports : Reports lib client (holdingsAt opening (movesOf lib catalog trades []) nowMs)
  solvent : Solvent opening (movesOf lib catalog trades [])

/-- No trade has the time of the connection, and what trades is reported and valued, or not held at either end. -/
structure Traceable (opening : String → ℚ) (trades : List Trade) (sinceMs nowMs : ℕ) : Prop extends
    OnlyTrades lib client catalog price opening trades sinceMs nowMs where
  later : ∀ t ∈ trades, sinceMs < t.timeMs.toNat
  followed : ∀ asset ∈ (movesOf lib catalog trades []).map Prod.fst,
    Reported client asset ∧ InScope client catalog asset ∨
      opening asset = 0 ∧ holdingsAt opening (movesOf lib catalog trades []) nowMs asset = 0

/-- The profits and losses are what the account has gained in value. -/
def Reconciles (result : HistoryResult) : Prop :=
  ∃ first last, result.dailyNav.head? = some first ∧ result.dailyNav.getLast? = some last ∧
    result.pnl.realized + result.pnl.unrealized - result.pnl.fees = last.nav - first.nav

variable {lib client catalog price}

theorem postings_toMove (t : Trade) : (t.postings lib catalog).map Posting.toMove = t.moves lib catalog := rfl

theorem movesOf_sorted (trades : List Trade) :
    (movesOf lib catalog trades []).insertionSort (fun a b => a.2.timeMs ≤ b.2.timeMs) =
      (postingsOf lib catalog trades).map Posting.toMove := by
  have hmoves : movesOf lib catalog trades [] = trades.flatMap (Trade.moves lib catalog) := by
    unfold movesOf
    rw [List.flatMap_nil, List.append_nil]
  have htimes : ∀ t : Trade, ∀ m ∈ t.moves lib catalog, m.2.timeMs = t.timeMs.toNat := by
    intro t m hm
    simp only [Trade.moves, List.mem_cons, List.not_mem_nil, or_false] at hm
    rcases hm with rfl | rfl | rfl <;> rfl
  rw [hmoves, insertionSort_flatMap htimes]
  unfold postingsOf chronological
  rw [List.map_flatMap]
  rfl

theorem mem_postingsOf {trades : List Trade} {p : Posting} :
    p ∈ postingsOf lib catalog trades ↔ ∃ t ∈ trades, p ∈ t.postings lib catalog := by
  unfold postingsOf chronological
  simp only [List.mem_flatMap, List.mem_insertionSort]

theorem quantity_nonneg {trades : List Trade}
    (hamounts : ∀ t ∈ trades, 0 ≤ amountOf lib t.price ∧ 0 ≤ amountOf lib t.qty ∧ 0 ≤ amountOf lib t.commission) :
    ∀ p ∈ postingsOf lib catalog trades, 0 ≤ p.quantity := by
  intro p hp
  obtain ⟨t, ht, hp⟩ := mem_postingsOf.1 hp
  obtain ⟨hprice, hqty, hcommission⟩ := hamounts t ht
  simp only [Trade.postings, List.mem_cons, List.not_mem_nil, or_false] at hp
  rcases hp with rfl | rfl | rfl
  · exact hqty
  · exact mul_nonneg hprice hqty
  · exact hcommission

end Postings

section Books

variable {client : MarketData} {price : String → ℕ → ℚ} {asset : String} {start : Book ℚ} {lot : Lot} {s : PnlState}

def Lot.book (lot : Lot) : Book ℚ := ⟨lot.held, lot.averageCost⟩

theorem Lot.book_acquire (hheld : 0 ≤ lot.held) {quantity : ℚ} (h : 0 ≤ quantity) (unitPrice : ℚ) :
    (lot.acquire quantity unitPrice).book = lot.book.move (quantity, unitPrice) ∧
      (lot.acquire quantity unitPrice).realized = lot.realized + lot.book.gain (quantity, unitPrice) := by
  have hgain : lot.book.gain (quantity, unitPrice) = 0 := by
    unfold Book.gain
    dsimp only
    split_ifs with hin
    · rfl
    · rw [le_antisymm (not_lt.1 hin) h, neg_zero, zero_mul]
  refine ⟨?_, by rw [hgain, add_zero]; rfl⟩
  unfold Lot.book Lot.acquire Book.move
  dsimp only
  congr 1
  rcases h.eq_or_lt with rfl | hin
  · -- nothing comes in: the average of what is there is what it was
    rw [if_neg (lt_irrefl 0)]
    split_ifs with hpos
    · field_simp
      ring
    · rfl
  · rw [if_pos hin, if_pos (add_pos_of_nonneg_of_pos hheld hin)]

theorem Lot.book_dispose {quantity : ℚ} (h : 0 ≤ quantity) (hle : quantity ≤ lot.held) (unitPrice : ℚ) :
    (lot.dispose quantity unitPrice).book = lot.book.move (-quantity, unitPrice) ∧
      (lot.dispose quantity unitPrice).realized = lot.realized + lot.book.gain (-quantity, unitPrice) := by
  have hout : ¬ 0 < -quantity := by linarith
  unfold Lot.book Lot.dispose Book.move Book.gain
  dsimp only
  rw [min_eq_left hle, if_neg hout, if_neg hout, neg_neg, sub_eq_add_neg]
  exact ⟨rfl, rfl⟩

variable (client price asset start) in
/-- The lot of an asset is its book, with the gains realized. -/
structure Settled (postings : List Posting) (lot : Lot) : Prop where
  book : lot.book = start.run (bookedOf client price asset postings)
  realized : lot.realized = start.gains (bookedOf client price asset postings)

theorem bookedOf_append (postings postings' : List Posting) :
    bookedOf client price asset (postings ++ postings') =
      bookedOf client price asset postings ++ bookedOf client price asset postings' := List.flatMap_append

theorem bookedOf_singleton (p : Posting) : bookedOf client price asset [p] = p.booked client price asset :=
  List.flatMap_singleton _ p

theorem events_quantity {p : Posting} (hp : 0 ≤ p.quantity) : ∀ e ∈ p.events client price, 0 ≤ e.quantity := by
  intro e he
  cases p with
  | leg timeMs a quantity isCredit =>
    simp only [Posting.events] at he
    split_ifs at he
    · cases he
    · rw [List.mem_singleton.1 he]
      exact hp
    · rw [List.mem_singleton.1 he]
      exact hp
  | commission timeMs a quantity =>
    rw [List.mem_singleton.1 he]
    exact le_rfl

theorem lot_foldl {events : List PnlEvent} (h : ∀ e ∈ events, 0 ≤ e.quantity) :
    (events.foldl pnlStep s).lot asset = events.foldl (PnlEvent.onLot asset) (s.lot asset) := by
  induction events generalizing s with
  | nil => rfl
  | cons e events ih =>
    obtain ⟨he, hrest⟩ := List.forall_mem_cons.1 h
    rw [List.foldl_cons, List.foldl_cons, ih hrest, lot_pnlStep he]

/-- Only the legs of an asset reach its lot, and no leg reaches that of the quote currency. -/
theorem events_onLot_of_ne {p : Posting} (h : p.asset ≠ asset ∨ asset = client.quoteCurrency) :
    (p.events client price).foldl (PnlEvent.onLot asset) lot = lot := by
  cases p with
  | commission timeMs a quantity => rfl
  | leg timeMs a quantity isCredit =>
    simp only [Posting.events]
    split_ifs with hquote
    · rfl
    all_goals
      have ha : a ≠ asset := by
        rintro rfl
        exact h.elim (fun hne => hne rfl) hquote
      rw [List.foldl_cons, List.foldl_nil, PnlEvent.onLot, if_neg ha]

/-- What a posting does to the lot of an asset, when its book covers it. -/
theorem Settled.step {postings : List Posting} {p : Posting} (h : Settled client price asset start postings lot)
    (hquote : asset ≠ client.quoteCurrency) (hp : 0 ≤ p.quantity)
    (hcovered : Covered start (bookedOf client price asset (postings ++ [p]))) :
    Settled client price asset start (postings ++ [p]) ((p.events client price).foldl (PnlEvent.onLot asset) lot) := by
  have hheld : 0 ≤ lot.held := by
    have hbefore := (bookedOf_append postings [p] ▸ hcovered).of_append.held
    rwa [← h.book] at hbefore
  have hsame (hbooked : p.booked client price asset = []) : Settled client price asset start (postings ++ [p]) lot := by
    have heq : bookedOf client price asset (postings ++ [p]) = bookedOf client price asset postings := by
      rw [bookedOf_append, bookedOf_singleton, hbooked, List.append_nil]
    exact ⟨heq ▸ h.book, heq ▸ h.realized⟩
  have hmoved (m : ℚ × ℚ) (lot' : Lot) (hbooked : p.booked client price asset = [m])
      (hlot : lot'.book = lot.book.move m ∧ lot'.realized = lot.realized + lot.book.gain m) :
      Settled client price asset start (postings ++ [p]) lot' := by
    have heq : bookedOf client price asset (postings ++ [p]) = bookedOf client price asset postings ++ [m] := by
      rw [bookedOf_append, bookedOf_singleton, hbooked]
    refine ⟨?_, ?_⟩
    · rw [heq, Book.run_append, ← h.book, hlot.1]
      rfl
    · rw [heq, gains_append, hlot.2, h.realized, ← h.book]
      simp [Book.gains]
  cases p with
  | commission timeMs a quantity => exact hsame rfl
  | leg timeMs a quantity isCredit =>
    by_cases ha : a = asset
    · subst ha
      have hbooked (isCredit : Bool) : (Posting.leg timeMs a quantity isCredit).booked client price a =
          [(if isCredit then quantity else -quantity, worthAt client price a timeMs)] := if_pos rfl
      cases isCredit with
      | true =>
        have hevents : (Posting.leg timeMs a quantity true).events client price =
            [.acquire a quantity (worthAt client price a timeMs)] := if_neg hquote
        rw [hevents, List.foldl_cons, List.foldl_nil, PnlEvent.onLot, if_pos rfl]
        exact hmoved _ _ (hbooked true) (Lot.book_acquire hheld hp _)
      | false =>
        have hevents : (Posting.leg timeMs a quantity false).events client price =
            [.dispose a quantity (worthAt client price a timeMs)] := if_neg hquote
        -- what the book has after the sale is not negative, so the lot covers it
        have hle : quantity ≤ lot.held := by
          have hafter := hcovered.held
          rw [bookedOf_append, Book.run_append, ← h.book, bookedOf_singleton, hbooked, held_run] at hafter
          simp only [Lot.book, Bool.false_eq_true, if_false, List.map_cons, List.map_nil, List.sum_cons, List.sum_nil,
            add_zero] at hafter
          linarith
        rw [hevents, List.foldl_cons, List.foldl_nil, PnlEvent.onLot, if_pos rfl]
        exact hmoved _ _ (hbooked false) (Lot.book_dispose hp hle _)
    · have hne : (Posting.leg timeMs a quantity isCredit).asset ≠ asset := ha
      rw [events_onLot_of_ne (.inl hne)]
      exact hsame (if_neg ha)

/-- Over all postings the lot stays its book. -/
theorem Settled.run {postings : List Posting} (h : Settled client price asset start [] lot)
    (hquote : asset ≠ client.quoteCurrency) (hpostings : ∀ p ∈ postings, 0 ≤ p.quantity)
    (hcovered : Covered start (bookedOf client price asset postings)) :
    Settled client price asset start postings
      ((postings.flatMap (Posting.events client price)).foldl (PnlEvent.onLot asset) lot) := by
  induction postings using List.reverseRecOn with
  | nil => exact h
  | append_singleton postings p ih =>
    have hbefore : Covered start (bookedOf client price asset postings) :=
      (bookedOf_append postings [p] ▸ hcovered).of_append
    have hrun := ih (fun p hp => hpostings p (List.mem_append_left _ hp)) hbefore
    rw [List.flatMap_append, List.flatMap_singleton, List.foldl_append]
    exact hrun.step hquote (hpostings p (by simp)) hcovered

theorem paidIn_nonneg {postings : List Posting} (h : ∀ p ∈ postings, 0 ≤ p.quantity) : 0 ≤ paidIn asset postings := by
  refine List.sum_nonneg fun x hx => ?_
  obtain ⟨p, hp, rfl⟩ := List.mem_map.1 hx
  have hp := h p hp
  cases p with
  | leg timeMs a quantity isCredit => exact le_rfl
  | commission timeMs a quantity =>
    simp only [Posting.paidIn]
    split_ifs
    · exact hp
    · exact le_rfl

/-- A book holds what the account does, and what it has paid as commission. -/
theorem held_booked (postings : List Posting) :
    (start.run (bookedOf client price asset postings)).held =
      start.held + ((ofAsset asset (postings.map Posting.toMove)).map TimedDelta.delta).sum +
        paidIn asset postings := by
  rw [held_run, add_assoc]
  congr 1
  induction postings with
  | nil => simp [bookedOf, ofAsset, paidIn]
  | cons p postings ih =>
    have hbooked : bookedOf client price asset (p :: postings) =
        p.booked client price asset ++ bookedOf client price asset postings := rfl
    have hmoves : ofAsset asset ((p :: postings).map Posting.toMove) =
        ofAsset asset [p.toMove] ++ ofAsset asset (postings.map Posting.toMove) := by
      rw [← ofAsset_append]
      rfl
    have hone : ((p.booked client price asset).map Prod.fst).sum =
        ((ofAsset asset [p.toMove]).map TimedDelta.delta).sum + p.paidIn asset := by
      cases p with
      | leg timeMs a quantity isCredit =>
        simp only [Posting.booked, Posting.toMove, move, Posting.paidIn, ofAsset]
        by_cases ha : a = asset <;> simp [ha]
      | commission timeMs a quantity =>
        simp only [Posting.booked, Posting.toMove, move, Posting.paidIn, ofAsset]
        by_cases ha : a = asset <;> simp [ha]
    have hpaid : paidIn asset (p :: postings) = p.paidIn asset + paidIn asset postings := by
      simp [paidIn]
    rw [hbooked, hmoves, hpaid, List.map_append, List.map_append, List.sum_append, List.sum_append, hone, ih]
    ring

/-- A solvent account covers its books. -/
theorem covered_booked {postings : List Posting} {opening : String → ℚ} (hstart : start.held = opening asset)
    (hpostings : ∀ p ∈ postings, 0 ≤ p.quantity)
    (hsolvent : ∀ done rest, postings = done ++ rest → 0 ≤ (done.map Posting.toMove).foldl applyMove opening asset) :
    Covered start (bookedOf client price asset postings) := by
  have hheld (done rest : List Posting) (heq : postings = done ++ rest) :
      0 ≤ (start.run (bookedOf client price asset done)).held := by
    have hnow := hsolvent done rest heq
    rw [foldl_applyMove, ← hstart] at hnow
    rw [held_booked]
    exact add_nonneg hnow (paidIn_nonneg fun p hp => hpostings p (by rw [heq]; exact List.mem_append_left _ hp))
  induction postings using List.reverseRecOn with
  | nil =>
    intro done rest heq
    obtain ⟨rfl, -⟩ := List.append_eq_nil_iff.1 heq.symm
    exact hheld [] [] rfl
  | append_singleton postings p ih =>
    have hbefore : Covered start (bookedOf client price asset postings) := by
      refine ih (fun p hp => hpostings p (List.mem_append_left _ hp)) (fun done rest heq => ?_) fun done rest heq => ?_
      · exact hsolvent done (rest ++ [p]) (by rw [heq, List.append_assoc])
      · exact hheld done (rest ++ [p]) (by rw [heq, List.append_assoc])
    have hlast := hheld (postings ++ [p]) [] (List.append_nil _).symm
    rw [bookedOf_append, bookedOf_singleton] at hlast ⊢
    cases hp : p.booked client price asset with
    | nil => rwa [List.append_nil]
    | cons m moves =>
      have hnil : moves = [] := by
        cases p with
        | leg timeMs a quantity isCredit =>
          simp only [Posting.booked] at hp
          split_ifs at hp <;> exact (List.cons.inj hp).2.symm
        | commission timeMs a quantity => cases hp
      rw [hp, hnil] at hlast
      rw [hnil]
      exact covered_append_singleton.2 ⟨hbefore, hlast⟩

/-- Realized, and unrealized at a mark: what is held at the mark, less what was put in, and what the commissions cost. -/
theorem Settled.profit {postings : List Posting} {held quantity mark : ℚ} {sinceMs : ℕ}
    (h : Settled client price asset (openingBook client price held asset sinceMs) postings lot)
    (hpostings : ∀ p ∈ postings, 0 ≤ p.quantity)
    (hcovered : Covered (openingBook client price held asset sinceMs) (bookedOf client price asset postings))
    (hquantity : quantity = held + ((ofAsset asset (postings.map Posting.toMove)).map TimedDelta.delta).sum)
    (hnow : 0 ≤ quantity) :
    lot.realized + (if 0 < lot.held then (mark - lot.averageCost) * quantity else 0) =
      quantity * mark - held * worthAt client price asset sinceMs - invested (bookedOf client price asset postings) +
        ((openingBook client price held asset sinceMs).run (bookedOf client price asset postings)).cost *
          paidIn asset postings := by
  have hpaid : 0 ≤ paidIn asset postings := paidIn_nonneg hpostings
  have hopen : 0 ≤ held := by
    have hstart := hcovered [] _ rfl
    simpa [Book.run, openingBook, Book.move, Book.empty] using hstart
  have hopening : (openingBook client price held asset sinceMs).held *
      (openingBook client price held asset sinceMs).cost = held * worthAt client price asset sinceMs := by
    unfold openingBook
    rw [value_move le_rfl]
    simp only [Book.empty, Book.gain]
    split_ifs with hin
    · ring
    · rw [le_antisymm (not_lt.1 hin) hopen]
      ring
  have hheld : lot.held = quantity + paidIn asset postings := by
    have hbook := congrArg Book.held h.book
    rw [held_booked] at hbook
    have hstart : (openingBook client price held asset sinceMs).held = held := zero_add held
    rw [hquantity, ← hstart]
    exact hbook
  have hcost : lot.averageCost =
      ((openingBook client price held asset sinceMs).run (bookedOf client price asset postings)).cost :=
    congrArg Book.cost h.book
  have hgains := h.realized
  rw [gains_eq hcovered, hopening, ← h.book] at hgains
  simp only [Lot.book] at hgains
  rw [← hcost, hgains]
  split_ifs with hpos
  · rw [hheld]
    ring
  · -- nothing is left in the lot, so nothing is held and nothing was paid
    have hquantity0 : quantity = 0 := by linarith
    have hpaid0 : paidIn asset postings = 0 := by linarith
    have hheld0 : lot.held = 0 := by linarith
    rw [hheld0, hquantity0, hpaid0]
    ring

end Books

section Summary

variable {currentQuantities marks : Std.TreeMap String ℚ}

/-- What one asset adds to the profits. -/
def profitOf (s : PnlState) (currentQuantities marks : Std.TreeMap String ℚ) (asset : String) : ℚ :=
  (s.lot asset).realized +
    if 0 < (s.lot asset).held then
      (marks.getD asset 0 - (s.lot asset).averageCost) * currentQuantities.getD asset 0
    else 0

/-- An asset that is left out adds nothing. -/
theorem positionOf_profit (s : PnlState) (asset : String) :
    ((positionOf s.lots currentQuantities marks asset).map fun p => p.realized + p.unrealized.getD 0).getD 0 =
      profitOf s currentQuantities marks asset := by
  unfold positionOf profitOf PnlState.lot
  cases hlot : s.lots[asset]? with
  | none =>
    dsimp only
    split_ifs <;> simp_all [Lot.empty]
  | some lot =>
    simp only [Option.map_some, Option.getD_some]
    split_ifs with hnone hheld hheld
    · simp [hnone.1, hnone.2]
    · simp [hnone.2]
    · simp [Option.filter, hheld]
    · simp [Option.filter, hheld]

theorem sum_filterMap {α β : Type} (f : α → Option β) (g : β → ℚ) (l : List α) :
    ((l.filterMap f).map g).sum = (l.map fun a => ((f a).map g).getD 0).sum := by
  induction l with
  | nil => rfl
  | cons a l ih =>
    rw [List.map_cons, List.sum_cons, ← ih, List.filterMap_cons]
    cases f a with
    | none => simp
    | some b => simp

/-- The profits of the summary, asset by asset. -/
theorem computePnl_profit (openings : List (String × ℚ × ℚ)) (events : List PnlEvent) {assets : Finset String}
    (hlots : ∀ asset ∈ (runPnl openings events).lots, asset ∈ assets)
    (hquantities : ∀ asset ∈ currentQuantities, asset ∈ assets) :
    (computePnl openings events currentQuantities marks).realized +
        (computePnl openings events currentQuantities marks).unrealized =
      ∑ asset ∈ assets, profitOf (runPnl openings events) currentQuantities marks asset := by
  have hsummary : (computePnl openings events currentQuantities marks).realized +
      (computePnl openings events currentQuantities marks).unrealized =
        (((Std.TreeSet.ofList ((runPnl openings events).lots.keys ++ currentQuantities.keys)).toList.filterMap
          (positionOf (runPnl openings events).lots currentQuantities marks)).map
            fun p => p.realized + p.unrealized.getD 0).sum := by
    rw [List.sum_map_add]
    rfl
  have hnodup : (Std.TreeSet.ofList ((runPnl openings events).lots.keys ++ currentQuantities.keys)).toList.Nodup := by
    refine (Std.TreeSet.distinct_toList).imp fun {a b} hne heq => hne ?_
    rw [heq]
    exact Std.ReflCmp.compare_self
  have hmem (asset : String) :
      asset ∈ (Std.TreeSet.ofList ((runPnl openings events).lots.keys ++ currentQuantities.keys)).toList ↔
        asset ∈ (runPnl openings events).lots ∨ asset ∈ currentQuantities := by
    simp [Std.TreeSet.mem_toList, Std.TreeSet.mem_ofList]
  rw [hsummary, sum_filterMap]
  simp only [positionOf_profit]
  rw [← List.sum_toFinset _ hnodup]
  refine Finset.sum_subset (fun asset hasset => ?_) fun asset _ hout => ?_
  · rcases (hmem asset).1 (List.mem_toFinset.1 hasset) with hlot | hquantity
    · exact hlots asset hlot
    · exact hquantities asset hquantity
  · rw [List.mem_toFinset, hmem, not_or] at hout
    have hlot : (runPnl openings events).lot asset = .empty := by
      unfold PnlState.lot
      rw [Std.TreeMap.getElem?_eq_none hout.1]
      rfl
    unfold profitOf
    rw [hlot]
    simp [Lot.empty]

end Summary

section Ends

variable {lib : Decimals} {client : MarketData} {p : Prepared} {sinceMs nowMs : ℕ} {v : Valued}

/-- The last checkpoint is now, unless the account was connected no earlier. -/
theorem checkpoints_last (sinceMs nowMs : ℕ) :
    ∃ cut, (checkpoints sinceMs nowMs).getLast? = some cut ∧ sinceMs ≤ cut ∧ (sinceMs < nowMs → cut = nowMs) := by
  obtain ⟨rest, hcuts, hrest⟩ := checkpoints_cons sinceMs nowMs
  have hne : checkpoints sinceMs nowMs ≠ [] := by
    rw [hcuts]
    exact List.cons_ne_nil _ _
  have hex : ∃ cut, (checkpoints sinceMs nowMs).getLast? = some cut := ⟨_, List.getLast?_eq_some_getLast hne⟩
  obtain ⟨cut, hcut⟩ := hex
  refine ⟨cut, hcut, ?_, fun hlt => ?_⟩
  · have hmem := List.mem_of_getLast? hcut
    rw [hcuts, List.mem_cons] at hmem
    rcases hmem with rfl | hin
    · exact le_rfl
    · exact (hrest cut hin).1.le
  · unfold checkpoints at hcut
    dsimp only at hcut
    split_ifs at hcut with hlast
    · rw [List.getLast?_concat] at hcut
      exact (Option.some.inj hcut).symm
    · rw [not_and_or, not_not] at hlast
      rcases hlast with hnow | hnot
      · rw [hcut] at hnow
        exact Option.some.inj hnow
      · exact absurd hlt hnot

theorem valueCheckpoints_lists (hv : valueCheckpoints lib client p sinceMs nowMs = .ok v) :
    List.Forall₂ (fun cut q => quantitiesAt cut nowMs p.currentBalances p.deltas = .ok q)
        (checkpoints sinceMs nowMs) v.quantities ∧
      List.Forall₂ (fun (c : ℕ × List (String × ℚ)) h => priceHoldings client c.1 c.2 = .ok h)
        ((checkpoints sinceMs nowMs).zip v.quantities) v.holdings := by
  simp only [valueCheckpoints, bind_ok, pure_ok] at hv
  obtain ⟨flows, -, quantities, hquantities, holdings, hholdings, rfl⟩ := hv
  exact ⟨mapM_ok.1 hquantities, mapM_ok.1 hholdings⟩

/-- What is found of one checkpoint, by its place. -/
theorem valueCheckpoints_getElem? (hv : valueCheckpoints lib client p sinceMs nowMs = .ok v) {i cut : ℕ}
    (hcut : (checkpoints sinceMs nowMs)[i]? = some cut) :
    ∃ quantities holdings, v.quantities[i]? = some quantities ∧ v.holdings[i]? = some holdings ∧
      quantitiesAt cut nowMs p.currentBalances p.deltas = .ok quantities ∧
      priceHoldings client cut quantities = .ok holdings ∧
      (dailyNavOf (checkpoints sinceMs nowMs) v.holdings)[i]? = some ⟨cut, navOf holdings⟩ := by
  obtain ⟨hquantities, hholdings⟩ := valueCheckpoints_lists hv
  obtain ⟨quantities, hq, hat⟩ := forall₂_getElem? hquantities hcut
  have hzip : ((checkpoints sinceMs nowMs).zip v.quantities)[i]? = some (cut, quantities) :=
    List.getElem?_zip_eq_some.2 ⟨hcut, hq⟩
  obtain ⟨holdings, hh, hpriced⟩ := forall₂_getElem? hholdings hzip
  refine ⟨quantities, holdings, hq, hh, hat, hpriced, ?_⟩
  have hboth : ((checkpoints sinceMs nowMs).zip v.holdings)[i]? = some (cut, holdings) :=
    List.getElem?_zip_eq_some.2 ⟨hcut, hh⟩
  unfold dailyNavOf
  rw [List.getElem?_map, hboth]
  rfl

theorem valueCheckpoints_length (hv : valueCheckpoints lib client p sinceMs nowMs = .ok v) :
    v.quantities.length = (checkpoints sinceMs nowMs).length ∧
      v.holdings.length = (checkpoints sinceMs nowMs).length := by
  obtain ⟨hquantities, hholdings⟩ := valueCheckpoints_lists hv
  have hlength := hholdings.length_eq
  rw [List.length_zip, ← hquantities.length_eq, min_self] at hlength
  exact ⟨hquantities.length_eq.symm, hlength.symm⟩

end Ends

section Quantities

variable {lib : Decimals} {client : MarketData} {catalog : SymbolAssets} {price : String → ℕ → ℚ}
  {opening : String → ℚ} {trades : List Trade} {sinceMs nowMs cutMs : ℕ} {p : Prepared}
  {quantities : List (String × ℚ)}

theorem addedUp_all {l : List TimedDelta} {timeMs : ℕ} (h : ∀ d ∈ l, d.timeMs ≤ timeMs) :
    addedUp l timeMs = (l.map TimedDelta.delta).sum := by
  unfold addedUp
  rw [List.filter_eq_self.2 fun d hd => decide_eq_true (h d hd)]

theorem addedUp_none {l : List TimedDelta} {timeMs : ℕ} (h : ∀ d ∈ l, timeMs < d.timeMs) : addedUp l timeMs = 0 := by
  unfold addedUp
  rw [List.filter_eq_nil_iff.2 fun d hd hle => absurd (of_decide_eq_true hle) (not_le.2 (h d hd))]
  rfl

theorem Traceable.moves (h : Traceable lib client catalog price opening trades sinceMs nowMs) :
    movesSince lib catalog trades [] sinceMs = movesOf lib catalog trades [] := by
  unfold movesSince
  rw [List.filter_eq_self.2 fun t ht => decide_eq_true (h.times t ht).1]
  rfl

theorem Traceable.ofAsset_times (h : Traceable lib client catalog price opening trades sinceMs nowMs)
    (asset : String) :
    ∀ d ∈ ofAsset asset (movesOf lib catalog trades []), sinceMs < d.timeMs ∧ d.timeMs ≤ nowMs := by
  intro d hd
  obtain ⟨m, hm, rfl⟩ := List.mem_map.1 hd
  rcases List.mem_append.1 (List.mem_of_mem_filter hm) with hin | hin
  · obtain ⟨t, ht, hmove⟩ := List.mem_flatMap.1 hin
    simp only [Trade.moves, List.mem_cons, List.not_mem_nil, or_false] at hmove
    rcases hmove with rfl | rfl | rfl <;> exact ⟨h.later t ht, (h.times t ht).2⟩
  · simp at hin

theorem ofAsset_untouched {moves : List Move} {asset : String} (h : asset ∉ moves.map Prod.fst) :
    ofAsset asset moves = [] := by
  unfold ofAsset
  rw [List.map_eq_nil_iff, List.filter_eq_nil_iff]
  intro m hm heq
  rw [← of_decide_eq_true heq] at h
  exact h (List.mem_map_of_mem hm)

variable (lib catalog) in
/-- What an asset has changed by, all in all. -/
def changeOf (trades : List Trade) (asset : String) : ℚ :=
  ((ofAsset asset (movesOf lib catalog trades [])).map TimedDelta.delta).sum

/-- What is found of an asset at the connection: what was held, or nothing of one that does not move. -/
theorem Traceable.held_opening (h : Traceable lib client catalog price opening trades sinceMs nowMs)
    (hprepare : prepare lib client trades [] sinceMs = .ok p)
    (hq : quantitiesAt sinceMs nowMs p.currentBalances p.deltas = .ok quantities) (asset : String) :
    heldIn quantities asset = opening asset ∨
      heldIn quantities asset = 0 ∧ ofAsset asset (movesOf lib catalog trades []) = [] := by
  have hp := prepare_ok h.lists (fun t ht => h.reads t (List.mem_of_mem_filter ht)) hprepare
  rw [h.moves] at hp
  by_cases hfollowed : asset ∈ p.currentBalances
  · refine .inl ?_
    rw [heldIn_followed hp h.reports hq hfollowed, holdingsAt_eq,
      addedUp_none fun d hd => (h.ofAsset_times asset d hd).1, add_zero]
  · rw [heldIn_not_followed hq hfollowed]
    by_cases htouched : asset ∈ (movesOf lib catalog trades []).map Prod.fst
    · rcases h.followed asset htouched with hin | hzero
      · exact absurd ((hp.followed asset htouched).2 hin) hfollowed
      · exact .inl hzero.1.symm
    · exact .inr ⟨rfl, ofAsset_untouched htouched⟩

/-- From the connection to now what is found moves as the trades do. -/
theorem Traceable.held_closing (h : Traceable lib client catalog price opening trades sinceMs nowMs)
    (hprepare : prepare lib client trades [] sinceMs = .ok p) (hcut : sinceMs < nowMs → cutMs = nowMs)
    {quantities' : List (String × ℚ)}
    (hq : quantitiesAt sinceMs nowMs p.currentBalances p.deltas = .ok quantities)
    (hq' : quantitiesAt cutMs nowMs p.currentBalances p.deltas = .ok quantities') (asset : String) :
    heldIn quantities' asset = heldIn quantities asset + changeOf lib catalog trades asset := by
  have hp := prepare_ok h.lists (fun t ht => h.reads t (List.mem_of_mem_filter ht)) hprepare
  rw [h.moves] at hp
  have htimes := h.ofAsset_times asset
  -- a trade comes before now, and then the last cut is now
  have hall : ∀ d ∈ ofAsset asset (movesOf lib catalog trades []), d.timeMs ≤ cutMs := by
    intro d hd
    obtain ⟨hlo, hhi⟩ := htimes d hd
    rw [hcut (hlo.trans_le hhi)]
    exact hhi
  by_cases hfollowed : asset ∈ p.currentBalances
  · rw [heldIn_followed hp h.reports hq hfollowed, heldIn_followed hp h.reports hq' hfollowed, holdingsAt_eq,
      holdingsAt_eq, addedUp_none fun d hd => (htimes d hd).1, addedUp_all hall, add_zero]
    rfl
  · rw [heldIn_not_followed hq hfollowed, heldIn_not_followed hq' hfollowed, zero_add]
    by_cases htouched : asset ∈ (movesOf lib catalog trades []).map Prod.fst
    · rcases h.followed asset htouched with hin | ⟨hzero, hnow⟩
      · exact absurd ((hp.followed asset htouched).2 hin) hfollowed
      · rw [holdingsAt_eq, hzero, zero_add, addedUp_all fun d hd => (htimes d hd).2] at hnow
        exact hnow.symm
    · unfold changeOf
      rw [ofAsset_untouched htouched]
      rfl

end Quantities

section Events

variable {lib : Decimals} {client : MarketData} {catalog : SymbolAssets} {price : String → ℕ → ℚ}
  {trades : List Trade} {flows : List NormalizedFlow} {sinceMs : ℕ} {p : Prepared}

theorem prepare_listed (hlists : Lists client catalog) (h : prepare lib client trades flows sinceMs = .ok p)
    {symbol : String} {assets : String × String} (hassets : p.symbolAssets[symbol]? = some assets) :
    catalog[symbol]? = some assets := by
  obtain ⟨asked, -, hmarkets⟩ := prepare_markets hlists h
  rw [hmarkets] at hassets
  split_ifs at hassets
  exact hassets

/-- The priced events of a fill are those of its postings. -/
theorem tradePnlEvents_postings (hprices : PricedBy client price) {symbolAssets : SymbolAssets} {t : Trade}
    (hlisted : ∀ assets, symbolAssets[t.symbol]? = some assets → catalog[t.symbol]? = some assets)
    (hagrees : worthAt client price (catalog.getD t.symbol ("", "")).1 t.timeMs.toNat =
      amountOf lib t.price * worthAt client price (catalog.getD t.symbol ("", "")).2 t.timeMs.toNat)
    {events : List PnlEvent} (h : tradePnlEvents lib client symbolAssets t = .ok events) :
    events = (t.postings lib catalog).flatMap (Posting.events client price) := by
  unfold tradePnlEvents at h
  cases hassets : symbolAssets[t.symbol]? with
  | none =>
    rw [hassets] at h
    cases h
  | some assets =>
    rw [hassets] at h
    simp only [bind_ok, mapError_ok, Except.ok.injEq, exists_eq_left', pure_ok] at h
    obtain ⟨quoteUsdt, hquote, feeAssetUsdt, hfee, tradePrice, hprice, quantity, hquantity, commission, hcommission,
      rfl⟩ := h
    have hcatalog : catalog.getD t.symbol ("", "") = assets := by
      rw [Std.TreeMap.getD_eq_getD_getElem?, hlisted assets hassets]
      rfl
    rw [hcatalog] at hagrees
    rw [hprices.resolved hquote, hprices.resolved hfee, ← (parseDecimal_ok hprice).2, ← (parseDecimal_ok hquantity).2,
      ← (parseDecimal_ok hcommission).2, ← hagrees]
    unfold Trade.postings
    rw [hcatalog, mul_comm (amountOf lib t.qty) (amountOf lib t.price)]
    cases t.isBuyer <;> by_cases hbase : assets.1 = client.quoteCurrency <;>
      by_cases hquoted : assets.2 = client.quoteCurrency <;> simp [Posting.events, hbase, hquoted]

/-- All events of the trades in the order of time are those of the postings. -/
theorem events_sorted (trades : List Trade) :
    (((trades.map fun t => (t.timeMs.toNat, (t.postings lib catalog).flatMap (Posting.events client price))).flatMap
      fun e => e.2.map fun event => (e.1, event)).insertionSort fun a b => a.1 ≤ b.1).map Prod.snd =
        (postingsOf lib catalog trades).flatMap (Posting.events client price) := by
  have hblocks : ∀ t : Trade, ∀ e ∈ ((t.postings lib catalog).flatMap (Posting.events client price)).map
      (fun event => (t.timeMs.toNat, event)), e.1 = t.timeMs.toNat := by
    intro t e he
    obtain ⟨event, -, rfl⟩ := List.mem_map.1 he
    rfl
  rw [List.flatMap_map, @insertionSort_flatMap _ _ (fun t : Trade => t.timeMs.toNat) Prod.fst _ hblocks]
  unfold postingsOf chronological
  rw [List.map_flatMap, List.flatMap_assoc]
  congr 1
  funext t
  rw [List.map_map]
  exact List.map_id _

end Events

section Openings

variable {client : MarketData} {price : String → ℕ → ℚ} {cutMs nowMs : ℕ} {p : Prepared}
  {quantities : List (String × ℚ)} {holdings : List Holding} {asset : String}

theorem nodup_quantities (h : quantitiesAt cutMs nowMs p.currentBalances p.deltas = .ok quantities) :
    (quantities.map Prod.fst).Nodup := by
  have hkeys := p.currentBalances.nodup_keys
  rw [quantitiesAt_ok h, List.map_map]
  rwa [← Std.TreeMap.map_fst_toList_eq_keys] at hkeys

/-- What is held and not nothing, at its price. -/
theorem priceHoldings_ok (hprices : PricedBy client price) (h : priceHoldings client cutMs quantities = .ok holdings) :
    holdings = (quantities.filter fun q => q.2 ≠ 0).map fun q => ⟨q.1, q.2, worthAt client price q.1 cutMs⟩ := by
  unfold priceHoldings at h
  rw [mapM_ok] at h
  generalize quantities.filter (fun q => q.2 ≠ 0) = held at h
  induction h with
  | nil => rfl
  | cons hfirst hrest ih =>
    simp only [bind_ok, mapError_ok, pure_ok] at hfirst
    obtain ⟨r, hr, rfl⟩ := hfirst
    rw [List.map_cons, ← ih, hprices.resolved hr]

/-- An asset that is not in the list is held as nothing, and one that is, as there. -/
theorem heldIn_eq (hnodup : (quantities.map Prod.fst).Nodup) {held : ℚ} (hne : held ≠ 0) :
    heldIn quantities asset = held ↔ (asset, held) ∈ quantities := by
  rw [← OrderedMap.lookup_eq_some hnodup]
  unfold heldIn
  cases quantities.lookup asset with
  | none => simp [hne.symm]
  | some v => simp

/-- The last prices of what is held. -/
theorem marks_getD (hprices : PricedBy client price) (hnodup : (quantities.map Prod.fst).Nodup)
    (h : priceHoldings client cutMs quantities = .ok holdings) (hheld : heldIn quantities asset ≠ 0) :
    (Std.TreeMap.ofList (holdings.map fun h => (h.asset, h.price))).getD asset 0 = worthAt client price asset cutMs := by
  have hmarks : (holdings.map fun h => (h.asset, h.price)) =
      (quantities.filter fun q => q.2 ≠ 0).map fun q => (q.1, worthAt client price q.1 cutMs) := by
    rw [priceHoldings_ok hprices h, List.map_map]
    rfl
  have hnodup' : ((holdings.map fun h => (h.asset, h.price)).map Prod.fst).Nodup := by
    rw [hmarks, List.map_map]
    exact hnodup.sublist (List.filter_sublist.map _)
  have hin : (asset, worthAt client price asset cutMs) ∈ holdings.map fun h => (h.asset, h.price) := by
    rw [hmarks]
    refine List.mem_map.2 ⟨(asset, heldIn quantities asset), ?_, rfl⟩
    exact List.mem_filter.2 ⟨(heldIn_eq hnodup hheld).1 rfl, decide_eq_true hheld⟩
  rw [Std.TreeMap.getD_eq_getD_getElem?, OrderedMap.getElem?_ofList hnodup',
    (OrderedMap.lookup_eq_some hnodup').2 hin]
  rfl

theorem currentQuantities_getD (hnodup : (quantities.map Prod.fst).Nodup) (asset : String) :
    (Std.TreeMap.ofList (quantities.filter fun q => q.1 ≠ client.quoteCurrency)).getD asset 0 =
      if asset = client.quoteCurrency then 0 else heldIn quantities asset := by
  have hnodup' : ((quantities.filter fun q => q.1 ≠ client.quoteCurrency).map Prod.fst).Nodup :=
    hnodup.sublist (List.filter_sublist.map _)
  rw [Std.TreeMap.getD_eq_getD_getElem?, OrderedMap.getElem?_ofList hnodup']
  have hlookup : (quantities.filter fun q => q.1 ≠ client.quoteCurrency).lookup asset =
      if asset = client.quoteCurrency then none else quantities.lookup asset := by
    refine Option.ext fun v => ?_
    rw [OrderedMap.lookup_eq_some hnodup', List.mem_filter]
    split_ifs with hquote
    · simp [hquote]
    · rw [OrderedMap.lookup_eq_some hnodup]
      simp [hquote]
  rw [hlookup]
  unfold heldIn
  split_ifs <;> rfl

/-- The positions at the connection, as they enter the lots. -/
def openingsOf (client : MarketData) (holdings : List Holding) : List (String × ℚ × ℚ) :=
  holdings.filterMap fun h => if h.asset ≠ client.quoteCurrency then some (h.asset, h.qty, h.price) else none

theorem lot_openings (openings : List (String × ℚ × ℚ)) {s : PnlState} :
    ((openingEvents openings).foldl pnlStep s).lot asset =
      (openings.filter fun o => o.1 = asset).foldl (fun lot o => lot.acquire o.2.1 o.2.2) (s.lot asset) := by
  induction openings generalizing s with
  | nil => rfl
  | cons o openings ih =>
    have hstep : (pnlStep s (.acquire o.1 o.2.1 o.2.2)).lot asset =
        if o.1 = asset then (s.lot asset).acquire o.2.1 o.2.2 else s.lot asset := lot_update o.1 _
    have hcons : openingEvents (o :: openings) = .acquire o.1 o.2.1 o.2.2 :: openingEvents openings := rfl
    rw [hcons, List.foldl_cons, ih, hstep]
    by_cases ho : o.1 = asset
    · rw [if_pos ho, List.filter_cons_of_pos (by simpa using ho), List.foldl_cons]
    · rw [if_neg ho, List.filter_cons_of_neg (by simpa using ho)]

/-- An asset that is held at the connection opens its lot, if it is not the quote currency. -/
theorem filter_openings (hprices : PricedBy client price) (hnodup : (quantities.map Prod.fst).Nodup)
    (h : priceHoldings client cutMs quantities = .ok holdings) :
    (openingsOf client holdings).filter (fun o => o.1 = asset) =
      if asset = client.quoteCurrency ∨ heldIn quantities asset = 0 then []
      else [(asset, heldIn quantities asset, worthAt client price asset cutMs)] := by
  have hopenings : openingsOf client holdings = (quantities.filter fun q => q.1 ≠ client.quoteCurrency ∧ q.2 ≠ 0).map
      fun q => (q.1, q.2, worthAt client price q.1 cutMs) := by
    rw [priceHoldings_ok hprices h]
    unfold openingsOf
    clear h hnodup
    induction quantities with
    | nil => rfl
    | cons q quantities ih =>
      by_cases hzero : q.2 = 0
      · rw [List.filter_cons_of_neg (by simpa using hzero), List.filter_cons_of_neg (by simp [hzero]), ih]
      · rw [List.filter_cons_of_pos (by simpa using hzero), List.map_cons, List.filterMap_cons, ih]
        dsimp only
        by_cases hquote : q.1 = client.quoteCurrency
        · rw [if_neg (not_not.2 hquote), List.filter_cons_of_neg (by simp [hquote])]
        · rw [if_pos hquote, List.filter_cons_of_pos (by simp [hquote, hzero]), List.map_cons]
  have hnodup' : ((openingsOf client holdings).map Prod.fst).Nodup := by
    rw [hopenings, List.map_map]
    exact hnodup.sublist (List.filter_sublist.map _)
  have hlookup : (openingsOf client holdings).lookup asset =
      if asset = client.quoteCurrency ∨ heldIn quantities asset = 0 then none
      else some (heldIn quantities asset, worthAt client price asset cutMs) := by
    refine Option.ext fun v => ?_
    rw [OrderedMap.lookup_eq_some hnodup', hopenings, List.mem_map]
    constructor
    · rintro ⟨q, hq, heq⟩
      obtain ⟨hin, hkeep⟩ := List.mem_filter.1 hq
      obtain ⟨hquote, hzero⟩ := of_decide_eq_true hkeep
      obtain ⟨rfl, rfl⟩ := Prod.mk.inj heq
      have hheld : heldIn quantities q.1 = q.2 := (heldIn_eq hnodup hzero).2 hin
      rw [hheld, if_neg (not_or.2 ⟨hquote, hzero⟩)]
    · intro hv
      split_ifs at hv with hnot
      obtain ⟨hquote, hzero⟩ := not_or.1 hnot
      cases hv
      refine ⟨(asset, heldIn quantities asset), List.mem_filter.2 ⟨(heldIn_eq hnodup hzero).1 rfl, ?_⟩, rfl⟩
      exact decide_eq_true ⟨hquote, hzero⟩
  rw [OrderedMap.filter_key hnodup', hlookup]
  split_ifs <;> rfl

/-- At the connection the lots are the opening books. -/
theorem settled_openings (hprices : PricedBy client price) (hnodup : (quantities.map Prod.fst).Nodup)
    (h : priceHoldings client cutMs quantities = .ok holdings) (hquote : asset ≠ client.quoteCurrency)
    (hheld : 0 ≤ heldIn quantities asset) :
    Settled client price asset (openingBook client price (heldIn quantities asset) asset cutMs) []
      (((openingEvents (openingsOf client holdings)).foldl pnlStep .start).lot asset) := by
  have hempty : PnlState.start.lot asset = .empty := by
    unfold PnlState.lot PnlState.start
    simp
  rw [lot_openings, hempty, filter_openings hprices hnodup h]
  split_ifs with hnone
  · have hzero : heldIn quantities asset = 0 := hnone.resolve_left hquote
    refine ⟨?_, rfl⟩
    rw [hzero]
    simp [Lot.book, Lot.empty, bookedOf, Book.run, openingBook, Book.move, Book.empty]
  · obtain ⟨hbook, hrealized⟩ := @Lot.book_acquire .empty le_rfl _ hheld (worthAt client price asset cutMs)
    refine ⟨hbook, ?_⟩
    have hpos : 0 < heldIn quantities asset := lt_of_le_of_ne hheld fun heq => hnone (.inr heq.symm)
    rw [List.foldl_cons, List.foldl_nil, hrealized, Book.gain, if_pos hpos, add_zero]
    rfl

theorem lot_quote (holdings : List Holding) :
    ((openingEvents (openingsOf client holdings)).foldl pnlStep .start).lot client.quoteCurrency = .empty := by
  have hempty : PnlState.start.lot client.quoteCurrency = .empty := by
    unfold PnlState.lot PnlState.start
    simp
  have hnone : (openingsOf client holdings).filter (fun o => o.1 = client.quoteCurrency) = [] := by
    refine List.filter_eq_nil_iff.2 fun o ho heq => ?_
    obtain ⟨h, -, ho⟩ := List.mem_filterMap.1 ho
    split_ifs at ho with hquote
    cases ho
    exact hquote (of_decide_eq_true heq)
  rw [lot_openings, hempty, hnone]
  rfl

end Openings

section Sums

variable {lib : Decimals} {client : MarketData} {catalog : SymbolAssets} {price : String → ℕ → ℚ}
  {postings : List Posting} {assets : Finset String}

/-- What a leg puts in, at the price of its time. -/
def Posting.value (client : MarketData) (price : String → ℕ → ℚ) : Posting → ℚ
  | .leg timeMs asset quantity isCredit =>
    (if isCredit then quantity else -quantity) * worthAt client price asset timeMs
  | .commission _ _ _ => 0

def Posting.fee (client : MarketData) (price : String → ℕ → ℚ) : Posting → ℚ
  | .leg _ _ _ _ => 0
  | .commission timeMs asset quantity => quantity * worthAt client price asset timeMs

/-- Posting by posting, or asset by asset and then posting by posting. -/
theorem sum_byAsset (g : Posting → ℚ) (hassets : ∀ p ∈ postings, p.asset ∈ assets) :
    ∑ asset ∈ assets, (postings.map fun p => if p.asset = asset then g p else 0).sum = (postings.map g).sum := by
  induction postings with
  | nil => simp
  | cons p postings ih =>
    obtain ⟨hp, hrest⟩ := List.forall_mem_cons.1 hassets
    simp only [List.map_cons, List.sum_cons]
    rw [Finset.sum_add_distrib, ih hrest, Finset.sum_ite_eq, if_pos hp]

theorem sum_booked (hassets : ∀ p ∈ postings, p.asset ∈ assets) :
    ∑ asset ∈ assets, invested (bookedOf client price asset postings) =
      (postings.map (Posting.value client price)).sum := by
  rw [← sum_byAsset (Posting.value client price) hassets]
  refine Finset.sum_congr rfl fun asset _ => ?_
  clear hassets
  induction postings with
  | nil => rfl
  | cons p postings ih =>
    have hone : invested (p.booked client price asset) = if p.asset = asset then p.value client price else 0 := by
      cases p with
      | leg timeMs a quantity isCredit =>
        simp only [Posting.booked, Posting.asset, Posting.value]
        by_cases ha : a = asset <;> simp [invested, ha]
      | commission timeMs a quantity => simp [Posting.booked, Posting.value, invested]
    have hcons : bookedOf client price asset (p :: postings) =
        p.booked client price asset ++ bookedOf client price asset postings := rfl
    rw [hcons, invested_append, hone, ih, List.map_cons, List.sum_cons]

/-- What the commissions cost in all, at a cost for each asset. -/
theorem sum_paidIn (hassets : ∀ p ∈ postings, p.asset ∈ assets) (cost : String → ℚ) :
    ∑ asset ∈ assets, cost asset * paidIn asset postings =
      (postings.map fun p => cost p.asset * p.paidIn p.asset).sum := by
  rw [← sum_byAsset (fun p => cost p.asset * p.paidIn p.asset) hassets]
  refine Finset.sum_congr rfl fun asset _ => ?_
  unfold paidIn
  rw [← List.sum_map_mul_left]
  congr 1
  refine List.map_congr_left fun p _ => ?_
  cases p with
  | leg timeMs a quantity isCredit => simp [Posting.paidIn]
  | commission timeMs a quantity =>
    simp only [Posting.paidIn, Posting.asset, if_true]
    split_ifs with ha
    · rw [ha]
    · rw [mul_zero]

/-- A fill puts in as much as it takes out. -/
theorem values_cancel {trades : List Trade}
    (hagrees : ∀ t ∈ trades, worthAt client price (catalog.getD t.symbol ("", "")).1 t.timeMs.toNat =
      amountOf lib t.price * worthAt client price (catalog.getD t.symbol ("", "")).2 t.timeMs.toNat) :
    ((postingsOf lib catalog trades).map (Posting.value client price)).sum = 0 := by
  have hfill : ∀ t ∈ chronological trades, ((t.postings lib catalog).map (Posting.value client price)).sum = 0 := by
    intro t ht
    have heq := hagrees t ((List.mem_insertionSort _).1 ht)
    simp only [Trade.postings, List.map_cons, List.map_nil, List.sum_cons, List.sum_nil, Posting.value]
    cases t.isBuyer <;> simp [heq] <;> ring
  unfold postingsOf
  rw [List.map_flatMap]
  generalize chronological trades = sorted at hfill
  induction sorted with
  | nil => rfl
  | cons t sorted ih =>
    obtain ⟨hfirst, hrest⟩ := List.forall_mem_cons.1 hfill
    rw [List.flatMap_cons, List.sum_append, hfirst, ih hrest, add_zero]

theorem fees_postings (openings : List (String × ℚ × ℚ)) :
    (runPnl openings (postings.flatMap (Posting.events client price))).fees =
      (postings.map (Posting.fee client price)).sum := by
  have hopenings : ((openingEvents openings).map PnlEvent.paid).sum = 0 := by
    unfold openingEvents
    rw [List.map_map]
    refine List.sum_eq_zero fun x hx => ?_
    obtain ⟨o, -, rfl⟩ := List.mem_map.1 hx
    rfl
  unfold runPnl
  rw [fees_foldl, fees_foldl, hopenings]
  simp only [PnlState.start, zero_add]
  induction postings with
  | nil => rfl
  | cons p postings ih =>
    have hone : ((p.events client price).map PnlEvent.paid).sum = p.fee client price := by
      cases p with
      | leg timeMs a quantity isCredit =>
        simp only [Posting.events, Posting.fee]
        split_ifs <;> simp [PnlEvent.paid]
      | commission timeMs a quantity => simp [Posting.events, Posting.fee, PnlEvent.paid]
    rw [List.flatMap_cons, List.map_append, List.sum_append, ih, hone, List.map_cons, List.sum_cons]

/-- What an account is worth at a cut, asset by asset. -/
theorem navOf_sum (hprices : PricedBy client price) {cutMs : ℕ} {quantities : List (String × ℚ)}
    {holdings : List Holding} (hnodup : (quantities.map Prod.fst).Nodup)
    (h : priceHoldings client cutMs quantities = .ok holdings) (hassets : ∀ q ∈ quantities, q.1 ∈ assets) :
    navOf holdings = ∑ asset ∈ assets, heldIn quantities asset * worthAt client price asset cutMs := by
  rw [navOf_eq (hprices.at cutMs) le_rfl le_rfl h]
  have hworth : (quantities.map fun q => q.2 * worth client (fun a => price a cutMs) q.1) =
      quantities.map fun q => q.2 * worthAt client price q.1 cutMs := rfl
  rw [hworth]
  clear h hworth
  induction quantities with
  | nil => simp [heldIn]
  | cons q quantities ih =>
    obtain ⟨a, held⟩ := q
    rw [List.map_cons, List.nodup_cons] at hnodup
    obtain ⟨ha, hrest⟩ := List.forall_mem_cons.1 hassets
    have hnone : heldIn quantities a = 0 := by
      unfold heldIn
      rw [List.lookup_eq_none_iff.2 fun q hq => bne_iff_ne.2 fun heq => hnodup.1 (List.mem_map.2 ⟨q, hq, heq.symm⟩)]
      rfl
    have hcons (asset : String) : heldIn ((a, held) :: quantities) asset =
        (if a = asset then held else 0) + heldIn quantities asset := by
      unfold heldIn at hnone ⊢
      rw [List.lookup_cons]
      by_cases hasset : asset = a
      · subst hasset
        simp [hnone]
      · rw [beq_eq_false_iff_ne.2 hasset, if_neg (Ne.symm hasset), zero_add]
    simp only [hcons, add_mul, Finset.sum_add_distrib, List.map_cons, List.sum_cons]
    rw [ih hnodup.2 hrest]
    simp [ha]

end Sums

section Identity

variable {lib : Decimals} {client : MarketData} {catalog : SymbolAssets} {price : String → ℕ → ℚ}
  {opening : String → ℚ} {trades : List Trade} {sinceMs nowMs cutMs : ℕ} {p : Prepared}
  {first last : List (String × ℚ)} {held marked : List Holding}

theorem changeOf_postings (trades : List Trade) (asset : String) :
    ((ofAsset asset ((postingsOf lib catalog trades).map Posting.toMove)).map TimedDelta.delta).sum =
      changeOf lib catalog trades asset := by
  rw [← movesOf_sorted]
  exact ((ofAsset_perm (List.perm_insertionSort _ _) asset).map _).sum_eq

theorem foldl_quote (postings : List Posting) :
    (postings.flatMap (Posting.events client price)).foldl (PnlEvent.onLot client.quoteCurrency) .empty = .empty := by
  induction postings with
  | nil => rfl
  | cons p postings ih => rw [List.flatMap_cons, List.foldl_append, events_onLot_of_ne (.inr rfl), ih]

/-- Of the quote currency is put in what is held, and what was paid. -/
theorem invested_quote (postings : List Posting) :
    invested (bookedOf client price client.quoteCurrency postings) =
      ((ofAsset client.quoteCurrency (postings.map Posting.toMove)).map TimedDelta.delta).sum +
        paidIn client.quoteCurrency postings := by
  have hheld := @held_booked client price client.quoteCurrency .empty postings
  rw [held_run, Book.empty, zero_add, zero_add] at hheld
  rw [← hheld]
  unfold invested
  congr 1
  refine List.map_congr_left fun m hm => ?_
  obtain ⟨p, -, hp⟩ := List.mem_flatMap.1 hm
  cases p with
  | leg timeMs a quantity isCredit =>
    unfold Posting.booked at hp
    by_cases ha : a = client.quoteCurrency
    · have hm : m = (if isCredit then quantity else -quantity, worthAt client price a timeMs) := by simpa [ha] using hp
      rw [hm, ha, worthAt_quote, mul_one]
    · simp [ha] at hp
  | commission timeMs a quantity => cases hp

/-- What is found at the connection covers the postings at any time. -/
theorem Traceable.covers (h : Traceable lib client catalog price opening trades sinceMs nowMs)
    (hprepare : prepare lib client trades [] sinceMs = .ok p)
    (hfirst : quantitiesAt sinceMs nowMs p.currentBalances p.deltas = .ok first) (asset : String) :
    ∀ done rest, postingsOf lib catalog trades = done ++ rest →
      0 ≤ (done.map Posting.toMove).foldl applyMove (heldIn first) asset := by
  intro done rest heq
  have hsplit : (movesOf lib catalog trades []).insertionSort (fun a b => a.2.timeMs ≤ b.2.timeMs) =
      done.map Posting.toMove ++ rest.map Posting.toMove := by
    rw [movesOf_sorted, heq, List.map_append]
  have hnow := h.solvent _ _ hsplit asset
  rw [foldl_applyMove] at hnow ⊢
  rcases h.held_opening hprepare hfirst asset with hheld | ⟨hzero, hnone⟩
  · rwa [hheld]
  · have hperm := ofAsset_perm (List.perm_insertionSort (fun a b : Move => a.2.timeMs ≤ b.2.timeMs)
      (movesOf lib catalog trades [])) asset
    rw [hnone, List.perm_nil, hsplit, ofAsset_append, List.append_eq_nil_iff] at hperm
    rw [hzero, hperm.1]
    simp

/-- One asset's profit, by what is found of it at the connection and now. -/
theorem Traceable.profitOf_eq (h : Traceable lib client catalog price opening trades sinceMs nowMs)
    (hprepare : prepare lib client trades [] sinceMs = .ok p) (hcut : sinceMs < nowMs → cutMs = nowMs)
    (hfirst : quantitiesAt sinceMs nowMs p.currentBalances p.deltas = .ok first)
    (hlast : quantitiesAt cutMs nowMs p.currentBalances p.deltas = .ok last)
    (hheld : priceHoldings client sinceMs first = .ok held)
    (hmarked : priceHoldings client cutMs last = .ok marked) (asset : String) :
    profitOf (runPnl (openingsOf client held)
        ((postingsOf lib catalog trades).flatMap (Posting.events client price)))
        (.ofList (last.filter fun q => q.1 ≠ client.quoteCurrency))
        (.ofList (marked.map fun h => (h.asset, h.price))) asset =
      heldIn last asset * worthAt client price asset cutMs - heldIn first asset * worthAt client price asset sinceMs -
          invested (bookedOf client price asset (postingsOf lib catalog trades)) +
        unitCost client price (heldIn first) sinceMs (postingsOf lib catalog trades) asset *
          paidIn asset (postingsOf lib catalog trades) := by
  have hpostings : ∀ posting ∈ postingsOf lib catalog trades, 0 ≤ posting.quantity := quantity_nonneg h.amounts
  have hcovers := h.covers hprepare hfirst asset
  have hclosing := h.held_closing hprepare hcut hfirst hlast asset
  rw [← changeOf_postings] at hclosing
  have hevents : ∀ e ∈ (postingsOf lib catalog trades).flatMap (Posting.events client price), 0 ≤ e.quantity := by
    intro e he
    obtain ⟨posting, hposting, he⟩ := List.mem_flatMap.1 he
    exact events_quantity (hpostings posting hposting) e he
  unfold profitOf
  rw [currentQuantities_getD (nodup_quantities hlast)]
  unfold runPnl
  rw [lot_foldl hevents]
  by_cases hquote : asset = client.quoteCurrency
  · subst hquote
    have hlot : ((postingsOf lib catalog trades).flatMap (Posting.events client price)).foldl
        (PnlEvent.onLot client.quoteCurrency) .empty = .empty := foldl_quote _
    rw [lot_quote, hlot, invested_quote, unitCost, if_pos rfl, worthAt_quote, worthAt_quote, hclosing]
    simp [Lot.empty]
  · have hstart : (openingBook client price (heldIn first asset) asset sinceMs).held = heldIn first asset :=
      zero_add _
    have hcovered := @covered_booked client price asset _ _ (heldIn first) hstart hpostings hcovers
    have hsettled := (settled_openings h.prices (nodup_quantities hfirst) hheld hquote (hcovers [] _ rfl)).run hquote
      hpostings hcovered
    have hnow : 0 ≤ heldIn last asset := by
      have hall := hcovers _ [] (List.append_nil _).symm
      rwa [foldl_applyMove, ← hclosing] at hall
    have hmark : heldIn last asset * (Std.TreeMap.ofList (marked.map fun h => (h.asset, h.price))).getD asset 0 =
        heldIn last asset * worthAt client price asset cutMs := by
      by_cases hzero : heldIn last asset = 0
      · rw [hzero, zero_mul, zero_mul]
      · rw [marks_getD h.prices (nodup_quantities hlast) hmarked hzero]
    rw [if_neg hquote, hsettled.profit hpostings hcovered hclosing hnow, hmark, unitCost, if_neg hquote]

/-- What the commissions cost at the end, less their worth when they were paid, by what is found at the connection. -/
theorem Traceable.drift (h : Traceable lib client catalog price opening trades sinceMs nowMs)
    (hprepare : prepare lib client trades [] sinceMs = .ok p)
    (hfirst : quantitiesAt sinceMs nowMs p.currentBalances p.deltas = .ok first) :
    ((postingsOf lib catalog trades).map fun posting =>
        unitCost client price (heldIn first) sinceMs (postingsOf lib catalog trades) posting.asset *
          posting.paidIn posting.asset).sum -
      ((postingsOf lib catalog trades).map (Posting.fee client price)).sum =
        commissionDrift lib client catalog price opening sinceMs trades := by
  -- a commission is paid in an asset that moves, so what is found of it is what was held
  have hcost : ∀ t ∈ trades, unitCost client price (heldIn first) sinceMs (postingsOf lib catalog trades)
      t.commissionAsset = unitCost client price opening sinceMs (postingsOf lib catalog trades) t.commissionAsset := by
    intro t ht
    have hmove : move t.timeMs.toNat t.commissionAsset (amountOf lib t.commission) false ∈
        movesOf lib catalog trades [] :=
      List.mem_append_left _ (List.mem_flatMap.2 ⟨t, ht, by simp [Trade.moves]⟩)
    rcases h.held_opening hprepare hfirst t.commissionAsset with heq | ⟨-, hnone⟩
    · unfold unitCost
      rw [heq]
    · unfold ofAsset at hnone
      rw [List.map_eq_nil_iff, List.filter_eq_nil_iff] at hnone
      exact absurd (decide_eq_true rfl) (hnone _ hmove)
  have hsorted : commissionDrift lib client catalog price opening sinceMs trades =
      ((chronological trades).map fun t => amountOf lib t.commission *
        (unitCost client price opening sinceMs (postingsOf lib catalog trades) t.commissionAsset -
          worthAt client price t.commissionAsset t.timeMs.toNat)).sum :=
    (((List.perm_insertionSort _ trades).map _).sum_eq).symm
  have hmem : ∀ t ∈ chronological trades, t ∈ trades := fun t ht => (List.mem_insertionSort _).1 ht
  rw [hsorted]
  generalize unitCost client price (heldIn first) sinceMs (postingsOf lib catalog trades) = cost at hcost ⊢
  generalize unitCost client price opening sinceMs (postingsOf lib catalog trades) = cost' at hcost ⊢
  unfold postingsOf
  generalize chronological trades = sorted at hmem ⊢
  induction sorted with
  | nil => simp
  | cons t sorted ih =>
    obtain ⟨ht, hrest⟩ := List.forall_mem_cons.1 hmem
    have hrest := ih hrest
    rw [List.flatMap_cons, List.map_append, List.map_append, List.sum_append, List.sum_append, List.map_cons,
      List.sum_cons, ← hrest, ← hcost t ht]
    simp only [Trade.postings, Posting.asset, Posting.paidIn, Posting.fee, List.map_cons, List.map_nil, List.sum_cons,
      List.sum_nil, if_true]
    ring

/-- The profits and losses less the fees are the gain in value and the drift of the commissions. -/
theorem Traceable.summary (h : Traceable lib client catalog price opening trades sinceMs nowMs)
    (hprepare : prepare lib client trades [] sinceMs = .ok p) (hcut : sinceMs < nowMs → cutMs = nowMs)
    (hfirst : quantitiesAt sinceMs nowMs p.currentBalances p.deltas = .ok first)
    (hlast : quantitiesAt cutMs nowMs p.currentBalances p.deltas = .ok last)
    (hheld : priceHoldings client sinceMs first = .ok held)
    (hmarked : priceHoldings client cutMs last = .ok marked) {summary : PnlSummary}
    (hsummary : summary = computePnl (openingsOf client held)
      ((postingsOf lib catalog trades).flatMap (Posting.events client price))
      (.ofList (last.filter fun q => q.1 ≠ client.quoteCurrency)) (.ofList (marked.map fun h => (h.asset, h.price)))) :
    summary.realized + summary.unrealized - summary.fees =
      navOf marked - navOf held + commissionDrift lib client catalog price opening sinceMs trades := by
  have hfees : summary.fees = ((postingsOf lib catalog trades).map (Posting.fee client price)).sum := by
    rw [hsummary, ← fees_postings (openingsOf client held)]
    rfl
  -- all assets that play a part
  obtain ⟨assets, hassets⟩ : ∃ assets : Finset String, ∀ asset,
      asset ∈ (runPnl (openingsOf client held)
        ((postingsOf lib catalog trades).flatMap (Posting.events client price))).lots ∨
      asset ∈ Std.TreeMap.ofList (last.filter fun q => q.1 ≠ client.quoteCurrency) ∨
      asset ∈ first.map Prod.fst ∨ asset ∈ last.map Prod.fst ∨
      asset ∈ (postingsOf lib catalog trades).map Posting.asset → asset ∈ assets := by
    refine ⟨((runPnl (openingsOf client held)
      ((postingsOf lib catalog trades).flatMap (Posting.events client price))).lots.keys ++
      (Std.TreeMap.ofList (last.filter fun q => q.1 ≠ client.quoteCurrency)).keys ++ first.map Prod.fst ++
      last.map Prod.fst ++ (postingsOf lib catalog trades).map Posting.asset).toFinset, fun asset hin => ?_⟩
    rw [List.mem_toFinset, List.mem_append, List.mem_append, List.mem_append, List.mem_append, Std.TreeMap.mem_keys,
      Std.TreeMap.mem_keys, or_assoc, or_assoc, or_assoc]
    exact hin
  have hpostings : ∀ posting ∈ postingsOf lib catalog trades, posting.asset ∈ assets := fun posting hin =>
    hassets _ (.inr (.inr (.inr (.inr (List.mem_map_of_mem hin)))))
  have hprofit := @computePnl_profit (.ofList (last.filter fun q => q.1 ≠ client.quoteCurrency))
    (.ofList (marked.map fun h => (h.asset, h.price))) (openingsOf client held)
    ((postingsOf lib catalog trades).flatMap (Posting.events client price)) assets
    (fun asset hin => hassets asset (.inl hin)) fun asset hin => hassets asset (.inr (.inl hin))
  rw [← hsummary] at hprofit
  have hnav := navOf_sum h.prices (nodup_quantities hfirst) hheld fun q hq =>
    hassets q.1 (.inr (.inr (.inl (List.mem_map_of_mem hq))))
  have hnav' := navOf_sum h.prices (nodup_quantities hlast) hmarked fun q hq =>
    hassets q.1 (.inr (.inr (.inr (.inl (List.mem_map_of_mem hq)))))
  have hbooked := @sum_booked client price _ assets hpostings
  rw [values_cancel h.agrees] at hbooked
  have hpaid := sum_paidIn hpostings (unitCost client price (heldIn first) sinceMs (postingsOf lib catalog trades))
  rw [hprofit, hfees, ← h.drift hprepare hfirst, ← hpaid, hnav, hnav',
    Finset.sum_congr rfl fun asset _ => h.profitOf_eq hprepare hcut hfirst hlast hheld hmarked asset,
    Finset.sum_add_distrib, Finset.sum_sub_distrib, Finset.sum_sub_distrib, hbooked]
  ring

/-- What the lots are computed from: the postings, and what is found at the connection and now. -/
theorem pnlOf_postings (h : Traceable lib client catalog price opening trades sinceMs nowMs)
    (hprepare : prepare lib client trades [] sinceMs = .ok p) {v : Valued}
    (hv : valueCheckpoints lib client p sinceMs nowMs = .ok v) {tradeEvents : List (ℕ × List PnlEvent)}
    (htrades : (p.trades.mapM fun trade => do
      let events ← tradePnlEvents lib client p.symbolAssets trade
      pure (trade.timeMs.toNat, events)) = .ok tradeEvents)
    (hheld : v.holdings.head? = some held) (hmarked : v.holdings.getLast? = some marked)
    (hlast : v.quantities.getLast? = some last) :
    pnlOf client v tradeEvents = computePnl (openingsOf client held)
      ((postingsOf lib catalog trades).flatMap (Posting.events client price))
      (.ofList (last.filter fun q => q.1 ≠ client.quoteCurrency)) (.ofList (marked.map fun h => (h.asset, h.price))) := by
  have hflows : v.flows = [] := by
    have hpriced := (valueCheckpoints_ok hv).1
    rw [prepare_flows hprepare, List.filter_nil, List.filter_nil, List.mapM_nil, pure_ok] at hpriced
    exact hpriced.symm
  have hsame : p.trades = trades := by
    rw [prepare_trades hprepare]
    exact List.filter_eq_self.2 fun t ht => decide_eq_true (h.times t ht).1
  have hevents : tradeEvents = trades.map fun t =>
      (t.timeMs.toNat, (t.postings lib catalog).flatMap (Posting.events client price)) := by
    rw [hsame] at htrades
    refine mapM_map (fun t ht e he => ?_) htrades
    simp only [bind_ok, pure_ok] at he
    obtain ⟨events, hevents, rfl⟩ := he
    rw [tradePnlEvents_postings h.prices (fun assets => prepare_listed h.lists hprepare) (h.agrees t ht) hevents]
  unfold pnlOf
  rw [hflows, hevents, List.map_nil, List.nil_append, List.headD_eq_head?_getD, hheld, List.getLastD_eq_getLast?, hmarked,
    List.getLastD_eq_getLast?, hlast]
  dsimp only
  rw [events_sorted]
  rfl

/-- An account that only trades reconciles if and only if what its commissions cost at the end is what they were worth
when they were paid. -/
theorem reconciles_iff (h : Traceable lib client catalog price opening trades sinceMs nowMs) {result : HistoryResult}
    (hok : computeHistory lib client trades [] sinceMs nowMs = .ok result) :
    Reconciles result ↔ commissionDrift lib client catalog price opening sinceMs trades = 0 := by
  simp only [computeHistory, bind_ok, pure_ok, mapError_ok] at hok
  obtain ⟨p, hprepare, v, hv, twr, -, winRate, -, tradeEvents, htrades, rfl⟩ := hok
  obtain ⟨rest, hcuts, -⟩ := checkpoints_cons sinceMs nowMs
  obtain ⟨cutMs, hlastCut, -, hcut⟩ := checkpoints_last sinceMs nowMs
  obtain ⟨hquantities, hholdings⟩ := valueCheckpoints_length hv
  have hnavs : (dailyNavOf (checkpoints sinceMs nowMs) v.holdings).length = (checkpoints sinceMs nowMs).length := by
    unfold dailyNavOf
    rw [List.length_map, List.length_zip, hholdings, min_self]
  have hfirstCut : (checkpoints sinceMs nowMs)[0]? = some sinceMs := by
    rw [hcuts]
    rfl
  obtain ⟨first, held, -, hheadHoldings, hfirst, hheld, hheadNav⟩ := valueCheckpoints_getElem? hv hfirstCut
  rw [List.getLast?_eq_getElem?] at hlastCut
  obtain ⟨last, marked, hlastQuantities, hlastHoldings, hlast, hmarked, hlastNav⟩ :=
    valueCheckpoints_getElem? hv hlastCut
  rw [← List.head?_eq_getElem?] at hheadHoldings hheadNav
  rw [← hquantities, ← List.getLast?_eq_getElem?] at hlastQuantities
  rw [← hholdings, ← List.getLast?_eq_getElem?] at hlastHoldings
  rw [← hnavs, ← List.getLast?_eq_getElem?] at hlastNav
  have hsummary := h.summary hprepare hcut hfirst hlast hheld hmarked
    (pnlOf_postings h hprepare hv htrades hheadHoldings hlastHoldings hlastQuantities)
  unfold Reconciles
  rw [hheadNav, hlastNav]
  dsimp only
  rw [hsummary]
  constructor
  · rintro ⟨_, _, hf, hl, heq⟩
    cases hf
    cases hl
    dsimp only at heq
    linarith
  · intro hzero
    exact ⟨_, _, rfl, rfl, by rw [hzero, add_zero]⟩

/-- Commissions in the quote currency hide nothing. -/
theorem commissionDrift_quote (h : ∀ t ∈ trades, t.commissionAsset = client.quoteCurrency) :
    commissionDrift lib client catalog price opening sinceMs trades = 0 := by
  refine List.sum_eq_zero fun x hx => ?_
  obtain ⟨t, ht, rfl⟩ := List.mem_map.1 hx
  rw [h t ht, unitCost, if_pos rfl, worthAt_quote, sub_self, mul_zero]

end Identity

section Example

def bnbCatalog : SymbolAssets := .ofList [("BNBUSDT", ("BNB", "USDT")), ("NICHEUSDT", ("NICHE", "USDT"))]

/-- NICHE doubles after the trade, and BNB goes from ten to `later` before it. -/
def bnbPrice (later : ℚ) (asset : String) (timeMs : ℕ) : ℚ :=
  if asset = "NICHE" then (if timeMs ≤ 2000 then 10 else 20) else if timeMs ≤ 1000 then 10 else later

def bnbMarket (later : ℚ) : MarketData where
  quoteCurrency := "USDT"
  marketSymbol asset := asset ++ "USDT"
  fetchSymbolAssetsFor symbols := .ok (bnbCatalog.filter fun m _ => m ∈ symbols)
  fetchAccountBalances := .ok [⟨"USDT", "0", "0"⟩, ⟨"NICHE", "2", "0"⟩, ⟨"BNB", "0", "0"⟩]
  priceAtInstant asset timeMs := .ok (bnbPrice later asset timeMs)

/-- Two are bought for twenty, and the two BNB of the account pay for it. -/
def paidInBnb : List Trade := [⟨"NICHEUSDT", 1, "10", "2", "2", "BNB", 2000, true⟩]

def beforeBuying (asset : String) : ℚ := if asset = "USDT" then 20 else if asset = "BNB" then 2 else 0

def bnbMoves : List Move := [("NICHE", ⟨2000, 2⟩), ("USDT", ⟨2000, -20⟩), ("BNB", ⟨2000, -2⟩)]

theorem paidInBnb_moves : movesOf exampleDecimals bnbCatalog paidInBnb [] = bnbMoves ∧
    bnbMoves.insertionSort (fun a b => a.2.timeMs ≤ b.2.timeMs) = bnbMoves := by
  decide +kernel

/-- An asset is one of the three, or untouched. -/
theorem bnb_assets {P : String → Prop} (hniche : P "NICHE") (husdt : P "USDT") (hbnb : P "BNB")
    (hother : ∀ asset, asset ≠ "NICHE" → asset ≠ "USDT" → asset ≠ "BNB" → P asset) (asset : String) : P asset := by
  by_cases h₁ : asset = "NICHE"
  · rwa [h₁]
  · by_cases h₂ : asset = "USDT"
    · rwa [h₂]
    · by_cases h₃ : asset = "BNB"
      · rwa [h₃]
      · exact hother asset h₁ h₂ h₃

theorem paidInBnb_held : ∀ asset, holdingsAt beforeBuying (movesOf exampleDecimals bnbCatalog paidInBnb []) 5000 asset =
    if asset = "NICHE" then 2 else 0 := by
  have hall : (bnbMoves.filter fun m => m.2.timeMs ≤ 5000) = bnbMoves := by decide +kernel
  unfold holdingsAt
  rw [paidInBnb_moves.1, paidInBnb_moves.2, hall]
  refine bnb_assets (by decide +kernel) (by decide +kernel) (by decide +kernel) fun asset h₁ h₂ h₃ => ?_
  simp [bnbMoves, applyMove, beforeBuying, h₁, h₂, h₃]

theorem paidInBnb_solvent : Solvent beforeBuying (movesOf exampleDecimals bnbCatalog paidInBnb []) := by
  intro done rest heq
  rw [paidInBnb_moves.1, paidInBnb_moves.2] at heq
  have hprefix : done ∈ bnbMoves.inits := (List.mem_inits _ _).2 ⟨rest, heq.symm⟩
  simp only [bnbMoves, List.inits, List.map_cons, List.map_nil, List.mem_cons, List.not_mem_nil, or_false] at hprefix
  rcases hprefix with rfl | rfl | rfl | rfl <;>
    refine bnb_assets (by decide +kernel) (by decide +kernel) (by decide +kernel) fun asset h₁ h₂ h₃ => ?_
  all_goals simp [applyMove, beforeBuying, h₁, h₂, h₃]

theorem paidInBnb_traceable (later : ℚ) :
    Traceable exampleDecimals (bnbMarket later) bnbCatalog (bnbPrice later) beforeBuying paidInBnb 1000 5000 where
  lists := by
    refine ⟨fun symbols found h m => ?_⟩
    rw [← Except.ok.inj h, Std.TreeMap.getElem?_filter']
    rcases bnbCatalog[m]? with _ | assets
    · simp
    · simp [Option.filter]
  reads := by
    unfold ReadsBack
    decide +kernel
  prices := fun asset timeMs r h => (Except.ok.inj h).symm
  agrees := by
    intro t ht
    have hassets : bnbCatalog.getD "NICHEUSDT" ("", "") = ("NICHE", "USDT") := by decide +kernel
    have hprice : amountOf exampleDecimals "10" = 10 := by decide +kernel
    rw [List.mem_singleton.1 ht]
    dsimp only
    rw [hassets, hprice]
    simp [worthAt, worth, bnbMarket, bnbPrice]
  amounts := by decide +kernel
  times := by decide +kernel
  later := by decide +kernel
  reports := by
    refine ⟨fun balances h b hb => ?_, fun balances h asset hasset => ?_⟩
    · rw [← Except.ok.inj h] at hb
      simp only [List.mem_cons, List.not_mem_nil, or_false] at hb
      rw [paidInBnb_held]
      rcases hb with rfl | rfl | rfl <;> decide +kernel
    · rw [← Except.ok.inj h] at hasset
      rw [paidInBnb_held, if_neg]
      rintro rfl
      simp at hasset
  followed := by
    intro asset hasset
    have hniche : "NICHE" ++ "USDT" ∈ bnbCatalog := by decide +kernel
    have hbnb : "BNB" ++ "USDT" ∈ bnbCatalog := by decide +kernel
    rw [paidInBnb_moves.1] at hasset
    simp only [bnbMoves, List.map_cons, List.map_nil, List.mem_cons, List.not_mem_nil, or_false] at hasset
    rcases hasset with rfl | rfl | rfl
    · exact .inl ⟨⟨_, rfl, by simp⟩, .inr hniche⟩
    · exact .inl ⟨⟨_, rfl, by simp⟩, .inl rfl⟩
    · exact .inl ⟨⟨_, rfl, by simp⟩, .inr hbnb⟩
  solvent := paidInBnb_solvent

def bnbHistory (later : ℚ) : Except HistoryError HistoryResult :=
  computeHistory exampleDecimals (bnbMarket later) paidInBnb [] 1000 5000

theorem bnbHistory_ok :
    (bnbHistory 10).toOption.isSome = true ∧
      (bnbHistory 20).toOption.map (fun r => (r.pnl.realized, r.pnl.unrealized, r.pnl.fees,
        r.dailyNav.head?.map DailyNav.nav, r.dailyNav.getLast?.map DailyNav.nav)) =
          some (0, 20, 40, some 40, some 40) := by
  decide +kernel

/-- With BNB at its old price the twenty that were gained are the profit, and twenty the fee. -/
theorem reconciles_bnb : ∃ result, bnbHistory 10 = .ok result ∧ Reconciles result := by
  rcases h : bnbHistory 10 with e | result
  · have hok := bnbHistory_ok.1
    rw [h] at hok
    cases hok
  · exact ⟨result, rfl, (reconciles_iff (paidInBnb_traceable 10) h).2 (by decide +kernel)⟩

/-- Two BNB that were worth twenty pay a fee of forty: the twenty they had gained are in no profit. -/
theorem spent_bnb_hides_profit :
    ∃ result, bnbHistory 20 = .ok result ∧
      Traceable exampleDecimals (bnbMarket 20) bnbCatalog (bnbPrice 20) beforeBuying paidInBnb 1000 5000 ∧
      result.pnl.realized = 0 ∧ result.pnl.unrealized = 20 ∧ result.pnl.fees = 40 ∧ ¬ Reconciles result := by
  have hok := bnbHistory_ok.2
  rcases h : bnbHistory 20 with e | result
  · rw [h] at hok
    cases hok
  · rw [h] at hok
    simp only [Except.toOption, Option.map_some, Option.some.injEq, Prod.mk.injEq] at hok
    obtain ⟨hrealized, hunrealized, hfees, hfirst, hlast⟩ := hok
    refine ⟨result, rfl, paidInBnb_traceable 20, hrealized, hunrealized, hfees, ?_⟩
    rintro ⟨first, last, hhead, hgetLast, heq⟩
    rw [hhead, Option.map_some, Option.some.injEq] at hfirst
    rw [hgetLast, Option.map_some, Option.some.injEq] at hlast
    rw [hrealized, hunrealized, hfees, hfirst, hlast] at heq
    norm_num at heq

end Example

end Linvesther.Worker
