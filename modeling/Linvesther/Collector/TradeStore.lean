import Linvesther.Base.FirstWins
import Linvesther.Worker.History

/-! `binance-trades`: the trades of each symbol by their number, and how far each symbol was read. A page goes in
whole or not at all. -/

namespace Linvesther.Collector

section Store

/-- All that a trade is compared by. -/
structure StoredTrade extends Worker.Trade where
  orderId : UInt64
deriving DecidableEq

inductive PageOutcome where
  | exhausted
  | unproven
deriving DecidableEq

def classifyPage (returned pageCapacity : ℕ) : PageOutcome :=
  if returned < pageCapacity then .exhausted else .unproven

structure PaginationTracker where
  pagesFetched : ℕ
  outcome : PageOutcome
deriving DecidableEq

def PaginationTracker.new : PaginationTracker := ⟨0, .unproven⟩

def PaginationTracker.recordPage (t : PaginationTracker) (returned pageCapacity : ℕ) : PaginationTracker :=
  ⟨t.pagesFetched + 1, classifyPage returned pageCapacity⟩

structure IngestError where
  symbol : String
  id : UInt64
deriving DecidableEq

abbrev TradesById := Std.TreeMap UInt64 StoredTrade

structure TradeStore where
  bySymbol : Std.TreeMap String TradesById
  pagination : Std.TreeMap String PaginationTracker

def TradeStore.new : TradeStore := ⟨∅, ∅⟩

def TradeStore.trade (store : TradeStore) (symbol : String) (id : UInt64) : Option StoredTrade :=
  store.bySymbol[symbol]?.bind fun trades => trades[id]?

def TradeStore.symbols (store : TradeStore) : List String := store.bySymbol.keys

def TradeStore.paginationOutcome (store : TradeStore) (symbol : String) : Option PageOutcome :=
  store.pagination[symbol]?.map PaginationTracker.outcome

/-- `or_insert`. -/
def orInsert (trades : TradesById) (t : StoredTrade) : TradesById :=
  if t.id ∈ trades then trades else trades.insert t.id t

def Clashes (trades : TradesById) (t : StoredTrade) : Prop := ∃ existing, trades[t.id]? = some existing ∧ existing ≠ t

instance (trades : TradesById) (t : StoredTrade) : Decidable (Clashes trades t) :=
  match h : trades[t.id]? with
  | none => isFalse (by simp [Clashes, h])
  | some existing => decidable_of_iff (existing ≠ t) (by simp [Clashes, h])

/-- `ingest_page`, and the store it leaves: the symbol is entered before anything is checked. -/
def TradeStore.ingestPage (store : TradeStore) (symbol : String) (trades : List StoredTrade) (pageCapacity : ℕ) :
    Except IngestError Unit × TradeStore :=
  let symbolTrades := store.bySymbol.getD symbol ∅
  match trades.find? fun t => Clashes symbolTrades t with
  | some t => (.error ⟨symbol, t.id⟩, { store with bySymbol := store.bySymbol.insert symbol symbolTrades })
  | none => (.ok (),
    { bySymbol := store.bySymbol.insert symbol (trades.foldl orInsert symbolTrades)
      pagination := store.pagination.alter symbol fun t =>
        some ((t.getD .new).recordPage trades.length pageCapacity) })

end Store

section Ingest

variable {store : TradeStore} {symbol : String} {page : List StoredTrade} {capacity : ℕ}

/-- Some trade of the page is stored with another content. -/
def ClashesWithStore (store : TradeStore) (symbol : String) (page : List StoredTrade) : Prop :=
  ∃ t ∈ page, ∃ existing, store.trade symbol t.id = some existing ∧ existing ≠ t

/-- Two trades of the page have one id and different contents. -/
def ClashesWithin (page : List StoredTrade) : Prop := ∃ t ∈ page, ∃ t' ∈ page, t.id = t'.id ∧ t ≠ t'

/-- Nothing that can be asked of the trades is answered in another way. -/
structure SameTrades (store store' : TradeStore) : Prop where
  trade : ∀ symbol id, store'.trade symbol id = store.trade symbol id
  symbols : ∀ symbol, symbol ∈ store'.symbols ↔ symbol ∈ store.symbols
  outcome : ∀ symbol, store'.paginationOutcome symbol = store.paginationOutcome symbol

/-- The trades of the store and those of the page. -/
def Union (store store' : TradeStore) (symbol : String) (page : List StoredTrade) : Prop :=
  ∀ s id t, store'.trade s id = some t ↔ store.trade s id = some t ∨ s = symbol ∧ t ∈ page ∧ t.id = id

theorem getElem?_orInsert (trades : TradesById) (t : StoredTrade) (id : UInt64) :
    (orInsert trades t)[id]? = trades[id]?.or (if t.id = id then some t else none) := by
  unfold orInsert
  split_ifs with hmem hid hid
  · subst hid
    obtain ⟨existing, hexisting⟩ := Option.isSome_iff_exists.1 (Std.TreeMap.isSome_getElem?_iff_mem.2 hmem)
    rw [hexisting]
    rfl
  · rw [Option.or_none]
  · subst hid
    rw [Std.TreeMap.getElem?_insert_self, Std.TreeMap.getElem?_eq_none hmem]
    rfl
  · rw [Std.TreeMap.getElem?_insert, if_neg fun hcompare => hid (Std.LawfulEqCmp.compare_eq_iff_eq.1 hcompare),
      Option.or_none]

/-- The first trade of an id stays. -/
theorem getElem?_foldl_orInsert (page : List StoredTrade) (trades : TradesById) (id : UInt64) :
    (page.foldl orInsert trades)[id]? = trades[id]?.or (page.find? fun t => t.id = id) := by
  induction page generalizing trades with
  | nil => simp
  | cons t page ih =>
    rw [List.foldl_cons, ih, getElem?_orInsert, Option.or_assoc, List.find?_cons]
    congr 1
    by_cases hid : t.id = id
    · simp [hid]
    · simp [hid]

theorem getElem?_getD_empty (store : TradeStore) (symbol : String) (id : UInt64) :
    (store.bySymbol.getD symbol ∅)[id]? = store.trade symbol id := by
  unfold TradeStore.trade
  rw [Std.TreeMap.getD_eq_getD_getElem?]
  cases store.bySymbol[symbol]? with
  | none => simp
  | some trades => rfl

theorem clashes_iff {t : StoredTrade} : Clashes (store.bySymbol.getD symbol ∅) t ↔
    ∃ existing, store.trade symbol t.id = some existing ∧ existing ≠ t := by
  unfold Clashes
  rw [getElem?_getD_empty]

theorem trade_insert (trades : TradesById) (pagination : Std.TreeMap String PaginationTracker) (s : String)
    (id : UInt64) : TradeStore.trade ⟨store.bySymbol.insert symbol trades, pagination⟩ s id =
      if s = symbol then trades[id]? else store.trade s id := by
  unfold TradeStore.trade
  dsimp only
  rw [Std.TreeMap.getElem?_insert]
  by_cases hs : s = symbol
  · subst hs
    simp
  · rw [if_neg hs, if_neg fun hcompare => hs (Std.LawfulEqCmp.compare_eq_iff_eq.1 hcompare).symm]

theorem ingestPage_refused (h : ClashesWithStore store symbol page) : ∃ t ∈ page,
    store.ingestPage symbol page capacity = (.error ⟨symbol, t.id⟩,
      { store with bySymbol := store.bySymbol.insert symbol (store.bySymbol.getD symbol ∅) }) := by
  obtain ⟨t, ht, hclash⟩ := h
  have hsome : (page.find? fun t => Clashes (store.bySymbol.getD symbol ∅) t).isSome := by
    rw [List.find?_isSome]
    exact ⟨t, ht, decide_eq_true (clashes_iff.2 hclash)⟩
  obtain ⟨first, hfirst⟩ := Option.isSome_iff_exists.1 hsome
  refine ⟨first, List.mem_of_find?_eq_some hfirst, ?_⟩
  unfold TradeStore.ingestPage
  dsimp only
  rw [hfirst]

theorem ingestPage_accepted (h : ¬ ClashesWithStore store symbol page) :
    store.ingestPage symbol page capacity = (.ok (),
      { bySymbol := store.bySymbol.insert symbol (page.foldl orInsert (store.bySymbol.getD symbol ∅))
        pagination := store.pagination.alter symbol fun t =>
          some ((t.getD .new).recordPage page.length capacity) }) := by
  have hnone : (page.find? fun t => Clashes (store.bySymbol.getD symbol ∅) t) = none := by
    rw [List.find?_eq_none]
    intro t ht hclash
    exact h ⟨t, ht, clashes_iff.1 (of_decide_eq_true hclash)⟩
  unfold TradeStore.ingestPage
  dsimp only
  rw [hnone]

theorem ingestPage_ok_iff :
    (store.ingestPage symbol page capacity).1 = .ok () ↔ ¬ ClashesWithStore store symbol page := by
  constructor
  · intro hok hclash
    obtain ⟨t, -, heq⟩ := @ingestPage_refused store symbol page capacity hclash
    rw [heq] at hok
    cases hok
  · intro h
    rw [ingestPage_accepted h]

/-- A symbol that is entered although the page is refused had trades already. -/
theorem sameTrades_refused (h : ClashesWithStore store symbol page) :
    SameTrades store (store.ingestPage symbol page capacity).2 ∧
      (store.ingestPage symbol page capacity).2.pagination = store.pagination := by
  obtain ⟨t, -, heq⟩ := @ingestPage_refused store symbol page capacity h
  have hknown : symbol ∈ store.bySymbol := by
    obtain ⟨t, -, existing, hexisting, -⟩ := h
    unfold TradeStore.trade at hexisting
    rw [Option.bind_eq_some_iff] at hexisting
    obtain ⟨trades, htrades, -⟩ := hexisting
    rw [← Std.TreeMap.isSome_getElem?_iff_mem, htrades]
    rfl
  rw [heq]
  refine ⟨⟨fun s id => ?_, fun s => ?_, fun _ => rfl⟩, rfl⟩
  · rw [trade_insert]
    split_ifs with hs
    · rw [hs, getElem?_getD_empty]
    · rfl
  · unfold TradeStore.symbols
    rw [Std.TreeMap.mem_keys, Std.TreeMap.mem_keys, Std.TreeMap.mem_insert]
    refine ⟨fun hor => hor.elim (fun hcompare => ?_) id, .inr⟩
    rwa [← Std.LawfulEqCmp.compare_eq_iff_eq.1 hcompare]

theorem trade_ingestPage (h : ¬ ClashesWithStore store symbol page) (s : String) (id : UInt64) :
    (store.ingestPage symbol page capacity).2.trade s id =
      if s = symbol then (store.trade s id).or (page.find? fun t => t.id = id) else store.trade s id := by
  rw [ingestPage_accepted h, trade_insert, getElem?_foldl_orInsert, getElem?_getD_empty]
  split_ifs with hs
  · rw [hs]
  · rfl

theorem union_ingestPage (h : ¬ ClashesWithStore store symbol page) (hwithin : ¬ ClashesWithin page) :
    Union store (store.ingestPage symbol page capacity).2 symbol page := by
  intro s id t
  rw [trade_ingestPage h]
  split_ifs with hs
  · subst hs
    cases hstored : store.trade s id with
    | some existing =>
      refine ⟨.inl, ?_⟩
      rintro (hsame | ⟨-, ht, rfl⟩)
      · exact hsame
      · -- a trade of the page under an id that is stored is the one that is stored
        by_contra hne
        exact h ⟨t, ht, existing, hstored, fun heq => hne (congrArg some heq)⟩
    | none =>
      rw [Option.none_or]
      constructor
      · intro hfind
        have hid := List.find?_some hfind
        exact .inr ⟨rfl, List.mem_of_find?_eq_some hfind, of_decide_eq_true hid⟩
      · rintro (hnone | ⟨-, ht, rfl⟩)
        · cases hnone
        · obtain ⟨found, hfound, hid⟩ := FirstWins.exists_find? (fun t : StoredTrade => t.id) ht
          have hsame : found = t := by
            by_contra hne
            exact hwithin ⟨found, List.mem_of_find?_eq_some hfound, t, ht, hid, hne⟩
          rw [hfound, hsame]
  · simp [hs]

/-- What the page brings is there already. -/
theorem again_ingestPage (h : ¬ ClashesWithStore store symbol page) (hwithin : ¬ ClashesWithin page) :
    ((store.ingestPage symbol page capacity).2.ingestPage symbol page capacity).1 = .ok () ∧
      SameTrades (store.ingestPage symbol page capacity).2
        ((store.ingestPage symbol page capacity).2.ingestPage symbol page capacity).2 := by
  have hunion := @union_ingestPage store symbol page capacity h hwithin
  have hagain : ¬ ClashesWithStore (store.ingestPage symbol page capacity).2 symbol page := by
    rintro ⟨t, ht, existing, hexisting, hne⟩
    have hstored := (hunion symbol t.id t).2 (.inr ⟨rfl, ht, rfl⟩)
    exact hne (Option.some.inj (hexisting.symm.trans hstored))
  refine ⟨ingestPage_ok_iff.2 hagain, fun s id => ?_, fun s => ?_, fun s => ?_⟩
  · apply Option.ext
    intro t
    rw [trade_ingestPage hagain]
    split_ifs with hs
    · subst hs
      have hpage : (store.ingestPage s page capacity).2.trade s id = none →
          page.find? (fun t => t.id = id) = none := by
        intro hnone
        rw [List.find?_eq_none]
        intro t' ht' hid
        have hstored := (hunion s id t').2 (.inr ⟨rfl, ht', of_decide_eq_true hid⟩)
        rw [hnone] at hstored
        cases hstored
      cases hstored : (store.ingestPage s page capacity).2.trade s id with
      | some existing => rfl
      | none => rw [hpage hstored, Option.none_or]
    · rfl
  · rw [ingestPage_accepted hagain]
    unfold TradeStore.symbols
    rw [Std.TreeMap.mem_keys, Std.TreeMap.mem_keys, Std.TreeMap.mem_insert, ingestPage_accepted h]
    simp
  · rw [ingestPage_accepted hagain]
    unfold TradeStore.paginationOutcome
    dsimp only
    rw [ingestPage_accepted h, Std.TreeMap.getElem?_alter]
    split_ifs with hs
    · rw [Std.LawfulEqCmp.compare_eq_iff_eq.1 hs, Std.TreeMap.getElem?_alter_self]
      rfl
    · rfl

/-- A page is refused exactly if it conflicts, a refused one changes nothing, and one that is not is added once. -/
structure ConflictExact (store : TradeStore) (symbol : String) (page : List StoredTrade) (capacity : ℕ) : Prop where
  conflict : (store.ingestPage symbol page capacity).1 ≠ .ok () ↔
    ClashesWithStore store symbol page ∨ ClashesWithin page
  unchanged : (store.ingestPage symbol page capacity).1 ≠ .ok () →
    SameTrades store (store.ingestPage symbol page capacity).2 ∧
      (store.ingestPage symbol page capacity).2.pagination = store.pagination
  union : (store.ingestPage symbol page capacity).1 = .ok () →
    Union store (store.ingestPage symbol page capacity).2 symbol page
  again : (store.ingestPage symbol page capacity).1 = .ok () →
    ((store.ingestPage symbol page capacity).2.ingestPage symbol page capacity).1 = .ok () ∧
      SameTrades (store.ingestPage symbol page capacity).2
        ((store.ingestPage symbol page capacity).2.ingestPage symbol page capacity).2

/-- The page is checked against the store only, so that two of its trades may differ unseen. -/
theorem ingest_page_exact_iff (store : TradeStore) (symbol : String) (page : List StoredTrade) (capacity : ℕ) :
    ConflictExact store symbol page capacity ↔ ClashesWithStore store symbol page ∨ ¬ ClashesWithin page := by
  constructor
  · intro h
    by_contra hneither
    obtain ⟨hstore, hwithin⟩ := not_or.1 hneither
    exact h.conflict.2 (.inr (not_not.1 hwithin)) (ingestPage_ok_iff.2 hstore)
  · intro h
    by_cases hstore : ClashesWithStore store symbol page
    · have hrefused : (store.ingestPage symbol page capacity).1 ≠ .ok () := fun hok =>
        ingestPage_ok_iff.1 hok hstore
      refine ⟨iff_of_true hrefused (.inl hstore), fun _ => sameTrades_refused hstore, fun hok => ?_, fun hok => ?_⟩
      · exact absurd hok hrefused
      · exact absurd hok hrefused
    · have hwithin := h.resolve_left hstore
      have hok : (store.ingestPage symbol page capacity).1 = .ok () := ingestPage_ok_iff.2 hstore
      refine ⟨iff_of_false (fun hne => hne hok) (not_or.2 ⟨hstore, hwithin⟩), fun hne => absurd hok hne, ?_, ?_⟩
      · exact fun _ => union_ingestPage hstore hwithin
      · exact fun _ => again_ingestPage hstore hwithin

/-- One id at two prices in a page: the first stays, and the second is lost. -/
theorem ingest_page_keeps_first :
    (TradeStore.new.ingestPage "BTCUSDT"
      [⟨⟨"BTCUSDT", 7, "10", "1", "0", "BNB", 1000, true⟩, 1⟩,
        ⟨⟨"BTCUSDT", 7, "11", "1", "0", "BNB", 1000, true⟩, 1⟩] 10).1 = .ok () ∧
      ¬ ConflictExact .new "BTCUSDT" [⟨⟨"BTCUSDT", 7, "10", "1", "0", "BNB", 1000, true⟩, 1⟩,
        ⟨⟨"BTCUSDT", 7, "11", "1", "0", "BNB", 1000, true⟩, 1⟩] 10 := by
  have hok : (TradeStore.new.ingestPage "BTCUSDT"
      [⟨⟨"BTCUSDT", 7, "10", "1", "0", "BNB", 1000, true⟩, 1⟩,
        ⟨⟨"BTCUSDT", 7, "11", "1", "0", "BNB", 1000, true⟩, 1⟩] 10).1 = .ok () := by
    decide +kernel
  refine ⟨hok, fun h => ?_⟩
  refine h.conflict.2 (.inr ?_) hok
  refine ⟨⟨⟨"BTCUSDT", 7, "10", "1", "0", "BNB", 1000, true⟩, 1⟩, by simp,
    ⟨⟨"BTCUSDT", 7, "11", "1", "0", "BNB", 1000, true⟩, 1⟩, by simp, by decide, by decide⟩

end Ingest

end Linvesther.Collector
