import Linvesther.Base.FirstWins
import Linvesther.Worker.History

/-! Binance's trades, market by market: which markets a sync reads follows from what was chosen, what was traded
and what is held, and each is read with one request. -/

namespace Linvesther.Worker.Binance

open FirstWins

section Sync

def QUOTES : List String := ["USDT", "USDC", "FDUSD", "BTC", "ETH", "BNB"]

/-- What one request for a market's trades brings at most. -/
def MY_TRADES_LIMIT : ℕ := 1000

/-- A market against one of the usual quotes. -/
structure Market where
  base : String
  quote : String
  isQuote : quote ∈ QUOTES
  apart : base ≠ quote

def Market.symbol (m : Market) : String := m.base ++ m.quote

/-- A fill, and what it does to the balances of the account. -/
structure Fill where
  market : Market
  trade : Trade
  onMarket : trade.symbol = market.symbol
  changes : List (String × ℚ)

/-- The account at the exchange, and the trades that are stored. `synced` counts the fills that there were at
the last sync. -/
structure Account where
  fills : List Fill
  changes : List (String × ℚ)
  stored : List Trade
  synced : ℕ

def balance (changes : List (String × ℚ)) (asset : String) : ℚ :=
  ((changes.filter fun change => change.1 = asset).map Prod.snd).sum

def heldAssets (changes : List (String × ℚ)) : List String :=
  (changes.map Prod.fst).dedup.filter fun asset => 0 < balance changes asset

def symbolsToRead (chosen traded heldAssets listed : List String) : List String :=
  let usual := heldAssets.flatMap fun asset =>
    (QUOTES.filter fun quote => asset ≠ quote ∧ asset ++ quote ∈ listed).map fun quote => asset ++ quote
  ((chosen ++ traded ++ usual).dedup).insertionSort (· ≤ ·)

/-- `myTrades` without a start: the most recent fills of the market. -/
def fetchMyTrades (fills : List Fill) (symbol : String) : List Trade :=
  let own := (fills.map Fill.trade).filter fun t => t.symbol = symbol
  own.drop (own.length - MY_TRADES_LIMIT)

def tradeKey (t : Trade) : String × UInt64 := (t.symbol, t.id)

def upsertTrades (stored trades : List Trade) : List Trade := insertAll tradeKey stored trades

def tradedSymbols (stored : List Trade) : List String := (stored.map Trade.symbol).dedup

/-- A catalog that could not be read is taken for an empty one. -/
def fetchTrades (chosen listed : List String) (catalogAnswers : Bool) (a : Account) : List Trade :=
  (symbolsToRead chosen (tradedSymbols a.stored) (heldAssets a.changes)
    (if catalogAnswers then listed else [])).flatMap (fetchMyTrades a.fills)

inductive Event where
  | fill (f : Fill)
  /-- A deposit, a withdrawal or whatever else moves the balances. -/
  | transfer (changes : List (String × ℚ))
  | sync (catalogAnswers : Bool)

variable (chosen listed : List String)

/-- The exchange fills on markets that it lists, and numbers the fills of a market upwards. -/
def Account.step (a : Account) : Event → Account
  | .fill f =>
    if f.market.symbol ∈ listed ∧ ∀ g ∈ a.fills, g.trade.symbol = f.trade.symbol → g.trade.id < f.trade.id then
      { a with fills := a.fills ++ [f], changes := a.changes ++ f.changes }
    else a
  | .transfer changes => { a with changes := a.changes ++ changes }
  | .sync catalogAnswers =>
    { a with
      stored := upsertTrades a.stored (fetchTrades chosen listed catalogAnswers a)
      synced := a.fills.length }

/-- The account when it was connected, whatever it held. -/
def Account.connected (holdings : List (String × ℚ)) : Account := ⟨[], holdings, [], 0⟩

def Account.after (holdings : List (String × ℚ)) (events : List Event) : Account :=
  events.foldl (Account.step chosen listed) (.connected holdings)

end Sync

section Reading

variable {chosen listed : List String}

theorem symbol_injective {base base' quote quote' : String} (hquote : quote ∈ QUOTES) (hquote' : quote' ∈ QUOTES)
    (h : base ++ quote = base' ++ quote') : base = base' := by
  -- No usual quote is the end of another: their last two letters differ.
  have hends : (base ++ quote).toList.reverse.take 2 = (base' ++ quote').toList.reverse.take 2 :=
    congrArg (fun text => text.toList.reverse.take 2) h
  have hsame : quote = quote' := by
    simp only [QUOTES, List.mem_cons, List.not_mem_nil, or_false] at hquote hquote'
    rcases hquote with rfl | rfl | rfl | rfl | rfl | rfl <;>
      rcases hquote' with rfl | rfl | rfl | rfl | rfl | rfl <;>
      first | rfl | (simp [String.toList_append] at hends)
  subst hsame
  have hlists := congrArg String.toList h
  rw [String.toList_append, String.toList_append, List.append_cancel_right_eq] at hlists
  exact String.ext hlists

theorem mem_symbolsToRead {traded held listed : List String} {symbol : String} :
    symbol ∈ symbolsToRead chosen traded held listed ↔ symbol ∈ chosen ∨ symbol ∈ traded ∨
      ∃ asset ∈ held, ∃ quote ∈ QUOTES, asset ≠ quote ∧ symbol ∈ listed ∧ asset ++ quote = symbol := by
  unfold symbolsToRead
  rw [(List.perm_insertionSort _ _).mem_iff, List.mem_dedup, List.mem_append, List.mem_append, or_assoc]
  refine or_congr_right (or_congr_right ?_)
  simp only [List.mem_flatMap, List.mem_map, List.mem_filter, decide_eq_true_eq]
  constructor
  · rintro ⟨asset, hasset, quote, ⟨hquote, hne, hlisted⟩, rfl⟩
    exact ⟨asset, hasset, quote, hquote, hne, hlisted, rfl⟩
  · rintro ⟨asset, hasset, quote, hquote, hne, hlisted, rfl⟩
    exact ⟨asset, hasset, quote, ⟨hquote, hne, hlisted⟩, rfl⟩

theorem mem_heldAssets {changes : List (String × ℚ)} {asset : String} :
    asset ∈ heldAssets changes ↔ 0 < balance changes asset := by
  unfold heldAssets
  rw [List.mem_filter, List.mem_dedup, decide_eq_true_eq]
  constructor
  · exact fun h => h.2
  · intro hpos
    refine ⟨?_, hpos⟩
    by_contra hnone
    have hfilter : changes.filter (fun change => change.1 = asset) = [] := by
      rw [List.filter_eq_nil_iff]
      intro change hchange heq
      rw [decide_eq_true_eq] at heq
      exact hnone (heq ▸ List.mem_map_of_mem hchange)
    rw [balance, hfilter] at hpos
    exact lt_irrefl _ hpos

/-- A market is read: it was chosen, it was traded on by the last sync, or its asset is held and the catalog
can be read. -/
def Read (chosen : List String) (catalogAnswers : Bool) (a : Account) (m : Market) : Prop :=
  m.symbol ∈ chosen ∨ (∃ g ∈ a.fills.take a.synced, g.trade.symbol = m.symbol) ∨
    (catalogAnswers = true ∧ 0 < balance a.changes m.base)

/-- Each market with fills since the last sync is read, and has no more of them than one request brings. -/
def Covered (chosen : List String) (catalogAnswers : Bool) (a : Account) : Prop :=
  ∀ f ∈ a.fills.drop a.synced, Read chosen catalogAnswers a f.market ∧
    ((a.fills.drop a.synced).filter fun g => g.trade.symbol = f.trade.symbol).length ≤ MY_TRADES_LIMIT

def Complete (a : Account) : Prop := ∀ f ∈ a.fills, f.trade ∈ a.stored

/-- What is stored are fills that there were at the last sync; the exchange lists its markets and numbers
their fills upwards. -/
structure Inv (listed : List String) (a : Account) : Prop where
  listed : ∀ f ∈ a.fills, f.market.symbol ∈ listed
  upwards : a.fills.Pairwise fun f g => f.trade.symbol = g.trade.symbol → f.trade.id < g.trade.id
  stored : ∀ t ∈ a.stored, ∃ f ∈ a.fills.take a.synced, f.trade = t

variable {a : Account} {f : Fill} {catalogAnswers : Bool}

theorem Inv.keys (h : Inv listed a) : (a.fills.map fun f => tradeKey f.trade).Nodup := by
  refine List.pairwise_map.2 (h.upwards.imp fun {f g} hfg hsame => ?_)
  have hid : f.trade.id = g.trade.id := congrArg Prod.snd hsame
  have hlt := hfg (congrArg Prod.fst hsame)
  rw [hid] at hlt
  exact UInt64.lt_irrefl _ hlt

/-- A fill since the last sync comes after those that there were. -/
theorem Inv.since_above (h : Inv listed a) {g : Fill} (hg : g ∈ a.fills.take a.synced)
    (hf : f ∈ a.fills.drop a.synced) (hsymbol : g.trade.symbol = f.trade.symbol) : g.trade.id < f.trade.id := by
  have hsplit := h.upwards
  rw [← List.take_append_drop a.synced a.fills, List.pairwise_append] at hsplit
  exact hsplit.2.2 g hg f hf hsymbol

theorem Inv.since_not_stored (h : Inv listed a) (hf : f ∈ a.fills.drop a.synced) : f.trade ∉ a.stored := by
  intro hstored
  obtain ⟨g, hg, hsame⟩ := h.stored f.trade hstored
  have hlt := h.since_above hg hf (congrArg Trade.symbol hsame)
  rw [hsame] at hlt
  exact UInt64.lt_irrefl _ hlt

theorem mem_fetchMyTrades {fills : List Fill} {symbol : String} {t : Trade}
    (h : t ∈ fetchMyTrades fills symbol) : t.symbol = symbol ∧ ∃ f ∈ fills, f.trade = t := by
  obtain ⟨hin, hsymbol⟩ := List.mem_filter.1 (List.mem_of_mem_drop h)
  rw [decide_eq_true_eq] at hsymbol
  exact ⟨hsymbol, List.mem_map.1 hin⟩

theorem mem_fetchTrades {t : Trade} (h : t ∈ fetchTrades chosen listed catalogAnswers a) :
    t.symbol ∈ symbolsToRead chosen (tradedSymbols a.stored) (heldAssets a.changes)
      (if catalogAnswers then listed else []) ∧ t ∈ fetchMyTrades a.fills t.symbol := by
  obtain ⟨symbol, hsymbol, ht⟩ := List.mem_flatMap.1 h
  have hsame := (mem_fetchMyTrades ht).1
  rw [hsame]
  exact ⟨hsymbol, ht⟩

/-- The fills of a market in order: those there were at the last sync, and those since. -/
theorem own_eq (a : Account) (symbol : String) :
    (a.fills.map Fill.trade).filter (fun t => t.symbol = symbol) =
      (((a.fills.take a.synced).filter fun g => g.trade.symbol = symbol).map Fill.trade) ++
        (((a.fills.drop a.synced).filter fun g => g.trade.symbol = symbol).map Fill.trade) := by
  rw [List.filter_map, ← List.map_append, ← List.filter_append, List.take_append_drop]
  rfl

/-- One request brings a market's fills since the last sync exactly if there are no more than its limit. -/
theorem since_fetched_iff (h : Inv listed a) (symbol : String) :
    (∀ f ∈ a.fills.drop a.synced, f.trade.symbol = symbol → f.trade ∈ fetchMyTrades a.fills symbol) ↔
      ((a.fills.drop a.synced).filter fun g => g.trade.symbol = symbol).length ≤ MY_TRADES_LIMIT := by
  set before := (a.fills.take a.synced).filter fun g => g.trade.symbol = symbol with hbefore
  set since := (a.fills.drop a.synced).filter fun g => g.trade.symbol = symbol with hsince
  have hfetched : fetchMyTrades a.fills symbol = (before.map Fill.trade ++ since.map Fill.trade).drop
      (before.length + since.length - MY_TRADES_LIMIT) := by
    rw [fetchMyTrades, own_eq, List.length_append, List.length_map, List.length_map]
  have hmem : ∀ f, f ∈ since ↔ f ∈ a.fills.drop a.synced ∧ f.trade.symbol = symbol := by
    intro f
    rw [hsince, List.mem_filter, decide_eq_true_eq]
  rw [hfetched]
  constructor
  · intro hall
    by_contra hmany
    -- The first of them is dropped, and none of the later ones is the same trade.
    obtain ⟨f, rest, hcons⟩ : ∃ f rest, since = f :: rest := by
      cases hs : since with
      | nil =>
        rw [hs] at hmany
        exact absurd (Nat.zero_le _) hmany
      | cons f rest => exact ⟨f, rest, rfl⟩
    obtain ⟨hf, hsymbol⟩ := (hmem f).1 (hcons ▸ List.mem_cons_self)
    have hdropped := hall f hf hsymbol
    have hlength : since.length = rest.length + 1 := by rw [hcons, List.length_cons]
    have hcount : before.length + since.length - MY_TRADES_LIMIT =
        (before.map Fill.trade).length + (rest.length - MY_TRADES_LIMIT + 1) := by
      rw [List.length_map]
      omega
    rw [hcount, List.drop_append, List.drop_of_length_le (Nat.le_add_right ..), List.nil_append,
      Nat.add_sub_cancel_left, hcons, List.map_cons, List.drop_succ_cons] at hdropped
    obtain ⟨g, hg, hsame⟩ := List.mem_map.1 (List.mem_of_mem_drop hdropped)
    have hordered : since.Pairwise fun f g => f.trade.symbol = g.trade.symbol → f.trade.id < g.trade.id :=
      (h.upwards.sublist (List.drop_sublist ..)).filter _
    rw [hcons] at hordered
    have hlt := List.rel_of_pairwise_cons hordered hg (congrArg Trade.symbol hsame).symm
    rw [hsame] at hlt
    exact UInt64.lt_irrefl _ hlt
  · intro hfew f hf hsymbol
    have hle : before.length + since.length - MY_TRADES_LIMIT ≤ (before.map Fill.trade).length := by
      rw [List.length_map]
      omega
    rw [List.drop_append_of_le_length hle]
    exact List.mem_append_right _ (List.mem_map_of_mem ((hmem f).2 ⟨hf, hsymbol⟩))

/-- All fills that there were at the last sync are stored. -/
def Known (a : Account) : Prop := ∀ f ∈ a.fills.take a.synced, f.trade ∈ a.stored

theorem read_iff (h : Inv listed a) (hknown : Known a) (hf : f ∈ a.fills) :
    f.trade.symbol ∈ symbolsToRead chosen (tradedSymbols a.stored) (heldAssets a.changes)
      (if catalogAnswers then listed else []) ↔ Read chosen catalogAnswers a f.market := by
  rw [mem_symbolsToRead, f.onMarket]
  refine or_congr_right (or_congr ?_ ?_)
  · unfold tradedSymbols
    rw [List.mem_dedup, List.mem_map]
    constructor
    · intro ⟨t, ht, hsymbol⟩
      obtain ⟨g, hg, hsame⟩ := h.stored t ht
      exact ⟨g, hg, hsame ▸ hsymbol⟩
    · intro ⟨g, hg, hsymbol⟩
      exact ⟨g.trade, hknown g hg, hsymbol⟩
  · constructor
    · intro ⟨asset, hasset, quote, hquote, _, hlisted, hsymbol⟩
      have hbase : asset = f.market.base := symbol_injective hquote f.market.isQuote hsymbol
      cases catalogAnswers with
      | false => exact absurd hlisted List.not_mem_nil
      | true => exact ⟨rfl, hbase ▸ mem_heldAssets.1 hasset⟩
    · intro ⟨hanswers, hpos⟩
      subst hanswers
      exact ⟨f.market.base, mem_heldAssets.2 hpos, f.market.quote, f.market.isQuote, f.market.apart,
        h.listed f hf, rfl⟩

/-- A sync stores every fill so far exactly if it reads each market that has new ones, and few enough of them. -/
theorem sync_complete_iff (h : Inv listed a) (hknown : Known a) :
    Complete (a.step chosen listed (.sync catalogAnswers)) ↔ Covered chosen catalogAnswers a := by
  have hfetched : ∀ f ∈ a.fills.drop a.synced, f.trade ∈ upsertTrades a.stored
      (fetchTrades chosen listed catalogAnswers a) →
        f.trade ∈ fetchTrades chosen listed catalogAnswers a := by
    intro f hf hin
    exact (mem_of_mem_insertAll hin).resolve_left (h.since_not_stored hf)
  constructor
  · intro hcomplete f hf
    have hin : ∀ g ∈ a.fills.drop a.synced, g.trade ∈ fetchTrades chosen listed catalogAnswers a :=
      fun g hg => hfetched g hg (hcomplete g (List.mem_of_mem_drop hg))
    refine ⟨(read_iff h hknown (List.mem_of_mem_drop hf)).1 (mem_fetchTrades (hin f hf)).1, ?_⟩
    refine (since_fetched_iff h f.trade.symbol).1 fun g hg hsymbol => ?_
    have hmarket := (mem_fetchTrades (hin g hg)).2
    rwa [hsymbol] at hmarket
  · intro hcovered f hf
    change f.trade ∈ upsertTrades a.stored (fetchTrades chosen listed catalogAnswers a)
    change f ∈ a.fills at hf
    rw [← List.take_append_drop a.synced a.fills, List.mem_append] at hf
    rcases hf with hbefore | hsince
    · exact mem_insertAll_of_mem (hknown f hbefore)
    · obtain ⟨hread, hfew⟩ := hcovered f hsince
      have hin : f.trade ∈ fetchTrades chosen listed catalogAnswers a := by
        refine List.mem_flatMap.2 ⟨f.trade.symbol, (read_iff h hknown (List.mem_of_mem_drop hsince)).2 hread, ?_⟩
        exact (since_fetched_iff h f.trade.symbol).2 hfew f hsince rfl
      refine mem_insertAll_of_inj (fun t ht hkey => ?_) (List.mem_append_right _ hin)
      have hfill : ∃ g ∈ a.fills, g.trade = t := by
        rcases List.mem_append.1 ht with hstored | hnew
        · obtain ⟨g, hg, hsame⟩ := h.stored t hstored
          exact ⟨g, List.mem_of_mem_take hg, hsame⟩
        · exact (mem_fetchMyTrades (mem_fetchTrades hnew).2).2
      obtain ⟨g, hg, rfl⟩ := hfill
      rw [List.inj_on_of_nodup_map h.keys hg (List.mem_of_mem_drop hsince) hkey]

theorem Inv.step (h : Inv listed a) (hsynced : a.synced ≤ a.fills.length) (event : Event) :
    Inv listed (a.step chosen listed event) ∧
      (a.step chosen listed event).synced ≤ (a.step chosen listed event).fills.length := by
  cases event with
  | fill f =>
    unfold Account.step
    dsimp only
    split_ifs with hfills
    · refine ⟨⟨fun g hg => ?_, ?_, fun t ht => ?_⟩, ?_⟩
      · rcases List.mem_append.1 hg with hold | hnew
        · exact h.listed g hold
        · rw [List.mem_singleton.1 hnew]
          exact hfills.1
      · refine List.pairwise_append.2 ⟨h.upwards, List.pairwise_singleton .., fun g hg f' hf' => ?_⟩
        rw [List.mem_singleton.1 hf']
        exact hfills.2 g hg
      · obtain ⟨g, hg, hsame⟩ := h.stored t ht
        refine ⟨g, ?_, hsame⟩
        dsimp only
        rw [List.take_append_of_le_length hsynced]
        exact hg
      · dsimp only
        rw [List.length_append]
        omega
    · exact ⟨h, hsynced⟩
  | transfer changes => exact ⟨⟨h.listed, h.upwards, h.stored⟩, hsynced⟩
  | sync catalogAnswers =>
    refine ⟨⟨h.listed, h.upwards, fun t ht => ?_⟩, le_refl _⟩
    change ∃ f ∈ a.fills.take a.fills.length, f.trade = t
    rw [List.take_length]
    rcases mem_of_mem_insertAll ht with hstored | hnew
    · obtain ⟨g, hg, hsame⟩ := h.stored t hstored
      exact ⟨g, List.mem_of_mem_take hg, hsame⟩
    · exact (mem_fetchMyTrades (mem_fetchTrades hnew).2).2

end Reading

section Runs

variable {chosen listed : List String} {holdings : List (String × ℚ)} {events : List Event}

theorem after_succ (n : ℕ) : Account.after chosen listed holdings (events.take (n + 1)) =
    events[n]?.elim (Account.after chosen listed holdings (events.take n))
      ((Account.after chosen listed holdings (events.take n)).step chosen listed) := by
  unfold Account.after
  rw [List.take_add_one, List.foldl_append]
  cases events[n]? <;> rfl

theorem inv_after (n : ℕ) : Inv listed (Account.after chosen listed holdings (events.take n)) ∧
    (Account.after chosen listed holdings (events.take n)).synced ≤
      (Account.after chosen listed holdings (events.take n)).fills.length := by
  induction n with
  | zero => exact ⟨⟨nofun, .nil, nofun⟩, le_refl _⟩
  | succ n ih =>
    rw [after_succ]
    cases events[n]? with
    | none => exact ih
    | some event => exact ih.1.step ih.2 event

/-- As long as every sync so far was complete, all that there was at the last one is stored. -/
theorem known_after {n : ℕ} (hcomplete : ∀ k < n, ∀ catalogAnswers, events[k]? = some (.sync catalogAnswers) →
      Complete (Account.after chosen listed holdings (events.take (k + 1)))) :
    Known (Account.after chosen listed holdings (events.take n)) := by
  induction n with
  | zero => exact nofun
  | succ n ih =>
    have hbefore := ih fun k hk => hcomplete k (Nat.lt_succ_of_lt hk)
    have hlast := hcomplete n (Nat.lt_succ_self n)
    rw [after_succ] at hlast ⊢
    cases hevent : events[n]? with
    | none => exact hbefore
    | some event =>
      rw [hevent] at hlast
      cases event with
      | fill f =>
        change Known ((Account.after chosen listed holdings (events.take n)).step chosen listed (.fill f))
        unfold Account.step
        dsimp only
        split_ifs
        · intro g hg
          dsimp only at hg
          rw [List.take_append_of_le_length (inv_after n).2] at hg
          exact hbefore g hg
        · exact hbefore
      | transfer changes => exact hbefore
      | sync catalogAnswers => exact fun f hf => hlast catalogAnswers rfl f (List.mem_of_mem_take hf)

/-- Every sync of a run stores every fill so far exactly if each reads the markets that have had fills since
the one before, and finds no more of them than one request brings. -/
theorem collection_complete_iff (chosen listed : List String) (holdings : List (String × ℚ))
    (events : List Event) :
    (∀ n catalogAnswers, events[n]? = some (.sync catalogAnswers) →
      Complete (Account.after chosen listed holdings (events.take (n + 1)))) ↔
    ∀ n catalogAnswers, events[n]? = some (.sync catalogAnswers) →
      Covered chosen catalogAnswers (Account.after chosen listed holdings (events.take n)) := by
  have hsync : ∀ n catalogAnswers, events[n]? = some (.sync catalogAnswers) →
      (∀ k < n, ∀ answers, events[k]? = some (.sync answers) →
        Complete (Account.after chosen listed holdings (events.take (k + 1)))) →
      (Complete (Account.after chosen listed holdings (events.take (n + 1))) ↔
        Covered chosen catalogAnswers (Account.after chosen listed holdings (events.take n))) := by
    intro n catalogAnswers hevent hearlier
    rw [after_succ, hevent]
    exact sync_complete_iff (inv_after n).1 (known_after hearlier)
  constructor
  · intro hcomplete n catalogAnswers hevent
    exact (hsync n catalogAnswers hevent fun k _ => hcomplete k).1 (hcomplete n catalogAnswers hevent)
  · intro hcovered n
    induction n using Nat.strong_induction_on with
    | _ n ih => exact fun catalogAnswers hevent => (hsync n catalogAnswers hevent ih).2 (hcovered n catalogAnswers hevent)

end Runs

section BoughtAndSold

def zama : Market := ⟨"ZAMA", "USDT", by decide, by decide⟩

def bought : Fill :=
  ⟨zama, ⟨"ZAMAUSDT", 1, "2", "10", "0", "BNB", 1000, true⟩, rfl, [("ZAMA", 10), ("USDT", -20)]⟩

def sold : Fill :=
  ⟨zama, ⟨"ZAMAUSDT", 2, "3", "10", "0", "BNB", 2000, false⟩, rfl, [("ZAMA", -10), ("USDT", 30)]⟩

/-- What is bought and sold again between two syncs is in neither of them. -/
theorem bought_and_sold_missed :
    ¬ Complete (Account.after ["BTCUSDT"] ["BTCUSDT", "ZAMAUSDT"] [("USDT", 100)]
      [.sync true, .fill bought, .fill sold, .sync true]) := by
  have hfills : (Account.after ["BTCUSDT"] ["BTCUSDT", "ZAMAUSDT"] [("USDT", 100)]
      [.sync true, .fill bought, .fill sold, .sync true]).fills.map Fill.trade =
        [bought.trade, sold.trade] := by
    decide +kernel
  have hstored : (Account.after ["BTCUSDT"] ["BTCUSDT", "ZAMAUSDT"] [("USDT", 100)]
      [.sync true, .fill bought, .fill sold, .sync true]).stored = [] := by
    decide +kernel
  intro hcomplete
  obtain ⟨f, hf, -⟩ := List.mem_map.1 (hfills ▸ List.mem_cons_self)
  have hin := hcomplete f hf
  rw [hstored] at hin
  cases hin

end BoughtAndSold

end Linvesther.Worker.Binance
